import BridgeKernel.Proofs.Merkle

/-!
# The path of a leaf

The path that is given out for a position leads from the leaf there to the root, whatever the number
of leaves: on each level the node above a position is the digest of the node there with its sibling,
and a last node without one is its own sibling. Another start reaches the root on this path only
where, at some step, it hashes another pair to the same digest.
-/

namespace BridgeKernel.Merkle

/-! ## One level -/

/-- The sibling of a position on a level. -/
def siblingAt (level : List Hash) (position : Nat) : Sibling :=
  if position % 2 = 0 then
    ⟨.right, level.getD (position + 1) (level.getD position (.zero 32))⟩
  else ⟨.left, level.getD (position - 1) (level.getD position (.zero 32))⟩

theorem siblings_succ (fuel : Nat) {level : List Hash} (position : Nat) (h : 1 < level.length) :
    siblings (fuel + 1) level position =
      siblingAt level position :: siblings fuel (levelAbove level) (position / 2) :=
  if_neg (Nat.not_le.mpr h)

/-- A level is half as long as the one below it, rounded up. -/
theorem length_levelAbove (level : List Hash) :
    (levelAbove level).length = (level.length + 1) / 2 := by
  fun_induction levelAbove level with
  | case1 => rfl
  | case2 a => simp
  | case3 a b rest ih =>
    rw [List.length_cons, List.length_cons, List.length_cons, ih]
    omega

/-- Beyond the first pair the siblings are those of the rest. -/
theorem siblingAt_add_two (a b : Hash) (rest : List Hash) (position : Nat) :
    siblingAt (a :: b :: rest) (position + 2) = siblingAt rest position := by
  unfold siblingAt
  rw [Nat.add_mod_right]
  split
  · rfl
  · next hodd =>
    obtain ⟨before, rfl⟩ := Nat.exists_eq_add_one_of_ne_zero (n := position) (by omega)
    rfl

/-- The node above a position is the digest of the node there with its sibling. -/
theorem levelAbove_getElem? {level : List Hash} {position : Nat} {node : Hash}
    (h : level[position]? = some node) :
    (levelAbove level)[position / 2]? = some (climb node (siblingAt level position)) := by
  fun_induction levelAbove level generalizing position with
  | case1 => cases h
  | case2 a =>
    match position, h with
    | 0, rfl => rfl
  | case3 a b rest ih =>
    match position, h with
    | 0, rfl => rfl
    | 1, rfl => rfl
    | position + 2, h =>
      rw [siblingAt_add_two, ← ih h, Nat.add_div_right position Nat.two_pos]
      rfl

/-! ## From the leaf to the root -/

/-- The siblings of a position lead from the node there to the top. -/
theorem foldl_climb_siblings {fuel : Nat} {level : List Hash} {position : Nat} {node : Hash}
    (hfuel : level.length ≤ fuel + 1) (h : level[position]? = some node) :
    (siblings fuel level position).foldl climb node = topOf fuel level := by
  induction fuel generalizing level position node with
  | zero =>
    match level, position, h with
    | [_], 0, rfl => rfl
  | succ fuel ih =>
    match level, h with
    | [a], h =>
      match position, h with
      | 0, rfl => rfl
    | a :: b :: rest, h =>
      have habove := levelAbove_getElem? h
      have hlength : (levelAbove (a :: b :: rest)).length ≤ fuel + 1 := by
        rw [length_levelAbove]
        omega
      rw [siblings_succ fuel position (by simp), List.foldl_cons, ih hlength habove]
      rfl

/-- At some step of a path the pairs hashed from two starts are different, and have one digest. -/
def ClashesAlong (path : List Sibling) (start other : Hash) : Prop :=
  ∃ (step : Nat) (a b : Bytes), (climbed start path)[step]? = some a ∧
    (climbed other path)[step]? = some b ∧ a.length = 64 ∧ b.length = 64 ∧ a ≠ b ∧
    Sha256.hash a = Sha256.hash b

/-- Different nodes make different pairs with one sibling. -/
theorem climbBytes_inj {current other : Hash} {sibling : Sibling}
    (h : climbBytes current sibling = climbBytes other sibling) : current = other := by
  unfold climbBytes at h
  cases hside : sibling.side with
  | left =>
    rw [hside] at h
    exact (pairBytes_inj.mp h).2
  | right =>
    rw [hside] at h
    exact (pairBytes_inj.mp h).1

/-- Different starts meet on a path only behind a clash. -/
theorem clashesAlong_of_foldl {path : List Sibling} {start other : Hash} (hne : start ≠ other)
    (h : path.foldl climb start = path.foldl climb other) : ClashesAlong path start other := by
  induction path generalizing start other with
  | nil => exact absurd h hne
  | cons sibling path ih =>
    by_cases hmeet : climb start sibling = climb other sibling
    · rw [climb_eq_hash, climb_eq_hash] at hmeet
      exact ⟨0, _, _, rfl, rfl, length_climbBytes start sibling, length_climbBytes other sibling,
        fun hsame => hne (climbBytes_inj hsame), hmeet⟩
    · obtain ⟨step, a, b, ha, hb, hclash⟩ := ih hmeet h
      exact ⟨step + 1, a, b, ha, hb, hclash⟩

/-! ## Paths that are given out -/

theorem path?_eq_none_iff {leaves : List Hash} {position : Nat} :
    path? leaves position = none ↔ leaves.length ≤ position := by
  unfold path?
  split
  · next hlt => simp [hlt]
  · next hge => simp [Nat.not_lt.mp hge]

theorem path?_of_lt {leaves : List Hash} {position : Nat} (h : position < leaves.length) :
    path? leaves position = some (siblings leaves.length leaves position) :=
  if_pos h

/-- A path proves its own leaf and no other. Over every list of leaves there is a path exactly for
the positions in the list; it leads from the leaf at its position to the root, and whatever else it
leads there from clashes with that leaf along it. -/
theorem path_proves_leaf (leaves : List Hash) (position : Nat) :
    (path? leaves position = none ↔ leaves.length ≤ position) ∧
      ∀ leaf, leaves[position]? = some leaf →
        ∃ path, path? leaves position = some path ∧
          includes leaf path (root leaves) = true ∧
          ∀ other, includes other path (root leaves) = true → other ≠ leaf →
            ClashesAlong path other leaf := by
  refine ⟨path?_eq_none_iff, fun leaf hleaf => ?_⟩
  obtain ⟨hlt, -⟩ := List.getElem?_eq_some_iff.mp hleaf
  have hroot := foldl_climb_siblings (Nat.le_succ leaves.length) hleaf
  refine ⟨_, path?_of_lt hlt, beq_iff_eq.mpr hroot, fun other hother hne => ?_⟩
  have hmeet := (eq_of_beq hother).trans hroot.symm
  exact clashesAlong_of_foldl hne hmeet

/-- The leaves of three payloads. -/
def threeLeaves : List Hash := [Sha256.hash [1], Sha256.hash [2], Sha256.hash [3]]

/-- The last of three leaves is its own sibling on the way up. -/
theorem last_of_three_proven :
    threeLeaves[2]? = some (Sha256.hash [3]) ∧
      ∃ path, path? threeLeaves 2 = some path ∧
        includes (Sha256.hash [3]) path (root threeLeaves) = true ∧
        ∀ other, includes other path (root threeLeaves) = true → other ≠ Sha256.hash [3] →
          ClashesAlong path other (Sha256.hash [3]) :=
  ⟨rfl, (path_proves_leaf threeLeaves 2).2 (Sha256.hash [3]) rfl⟩

end BridgeKernel.Merkle
