import BridgeKernel.Merkle

/-!
# What a Merkle path proves

A leaf is the digest of a payload and every other node the digest of a pair, and nothing in the
bytes tells one from the other. A path that leads to the root over payloads therefore proves that
what it starts from was hashed for that root, as a payload or as a pair, unless two different byte
strings that were hashed have one digest. It may also start below a payload, where that payload is
itself a pair.
-/

namespace BridgeKernel.Merkle

/-! ## What is hashed -/

/-- The bytes hashed for a pair of nodes. -/
def pairBytes (left right : Hash) : Bytes := left.toBytes ++ right.toBytes

/-- The bytes hashed for a node with its sibling. -/
def climbBytes (current : Hash) (sibling : Sibling) : Bytes :=
  match sibling.side with
  | .left => pairBytes sibling.digest current
  | .right => pairBytes current sibling.digest

/-- The pairs hashed on the way up a path. -/
def climbed : Hash → List Sibling → List Bytes
  | _, [] => []
  | current, sibling :: path => climbBytes current sibling :: climbed (climb current sibling) path

/-- The pairs hashed for the level above a level. -/
def pairsAbove : List Hash → List Bytes
  | [] => []
  | [a] => [pairBytes a a]
  | a :: b :: rest => pairBytes a b :: pairsAbove rest

/-- The pairs hashed for the last node left, at most `fuel` levels up. -/
def pairsBelowTop : (fuel : Nat) → List Hash → List Bytes
  | _, [] => []
  | _, [_] => []
  | 0, _ => []
  | fuel + 1, level => pairsAbove level ++ pairsBelowTop fuel (levelAbove level)

/-- The pairs hashed for the root over payloads. -/
def innerPairs (payloads : List Bytes) : List Bytes :=
  pairsBelowTop payloads.length (payloads.map Sha256.hash)

/-- Whether two different byte strings among these have one digest. -/
def Collides (known : List Bytes) : Prop :=
  ∃ a ∈ known, ∃ b ∈ known, a ≠ b ∧ Sha256.hash a = Sha256.hash b

instance (known : List Bytes) : Decidable (Collides known) :=
  inferInstanceAs (Decidable (∃ a ∈ known, ∃ b ∈ known, _))

theorem pairBytes_inj {a b c d : Hash} : pairBytes a b = pairBytes c d ↔ a = c ∧ b = d := by
  constructor
  · intro h
    obtain ⟨hleft, hright⟩ := List.append_inj h (a.length_toBytes.trans c.length_toBytes.symm)
    exact ⟨FixedBytes.ext hleft, FixedBytes.ext hright⟩
  · rintro ⟨rfl, rfl⟩
    rfl

theorem length_pairBytes (a b : Hash) : (pairBytes a b).length = 64 := by
  rw [pairBytes, List.length_append, a.length_toBytes, b.length_toBytes]

theorem climb_eq_hash (current : Hash) (sibling : Sibling) :
    climb current sibling = Sha256.hash (climbBytes current sibling) := by
  unfold climb climbBytes
  cases sibling.side <;> rfl

theorem length_climbBytes (current : Hash) (sibling : Sibling) :
    (climbBytes current sibling).length = 64 := by
  unfold climbBytes
  cases sibling.side <;> exact length_pairBytes _ _

/-- A node is one of the two that are hashed for the node above it. -/
theorem eq_or_eq_of_climbBytes {current a b : Hash} {sibling : Sibling}
    (h : climbBytes current sibling = pairBytes a b) : current = a ∨ current = b := by
  unfold climbBytes at h
  cases hside : sibling.side with
  | left =>
    rw [hside] at h
    exact .inr (pairBytes_inj.mp h).2
  | right =>
    rw [hside] at h
    exact .inl (pairBytes_inj.mp h).1

theorem levelAbove_eq_map (level : List Hash) :
    levelAbove level = (pairsAbove level).map Sha256.hash := by
  fun_induction pairsAbove level with
  | case1 => rfl
  | case2 a => rfl
  | case3 a b rest ih =>
    rw [levelAbove, ih]
    rfl

/-- A pair above a level is one of nodes of the level. -/
theorem exists_of_mem_pairsAbove {level : List Hash} {bytes : Bytes}
    (h : bytes ∈ pairsAbove level) : ∃ a ∈ level, ∃ b ∈ level, bytes = pairBytes a b := by
  fun_induction pairsAbove level with
  | case1 => cases h
  | case2 a =>
    exact ⟨a, List.mem_singleton_self a, a, List.mem_singleton_self a, List.mem_singleton.mp h⟩
  | case3 a b rest ih =>
    rcases List.mem_cons.mp h with rfl | h
    · exact ⟨a, by simp, b, by simp, rfl⟩
    · obtain ⟨c, hc, d, hd, hbytes⟩ := ih h
      exact ⟨c, by simp [hc], d, by simp [hd], hbytes⟩

/-! ## The nodes of a tree -/

/-- The nodes from a level to the top: the level, and the digests of the pairs above it. -/
def nodesBelowTop (fuel : Nat) (level : List Hash) : List Hash :=
  level ++ (pairsBelowTop fuel level).map Sha256.hash

/-- Going up from two nodes or more stays below the top. -/
theorem mem_nodesBelowTop_of_above {fuel : Nat} {a b node : Hash} {rest : List Hash}
    (h : node ∈ nodesBelowTop fuel (levelAbove (a :: b :: rest))) :
    node ∈ nodesBelowTop (fuel + 1) (a :: b :: rest) := by
  have hpairs : pairsBelowTop (fuel + 1) (a :: b :: rest) =
      pairsAbove (a :: b :: rest) ++ pairsBelowTop fuel (levelAbove (a :: b :: rest)) := rfl
  rw [nodesBelowTop, hpairs, List.map_append, ← levelAbove_eq_map]
  exact List.mem_append_right _ h

/-- The top is a node. -/
theorem topOf_mem (fuel : Nat) {level : List Hash} (hne : level ≠ []) :
    topOf fuel level ∈ nodesBelowTop fuel level := by
  induction fuel generalizing level with
  | zero =>
    match level, hne with
    | [root], _ => exact List.mem_append_left _ List.mem_cons_self
    | first :: _ :: _, _ => exact List.mem_append_left _ List.mem_cons_self
  | succ fuel ih =>
    match level, hne with
    | [root], _ => exact List.mem_append_left _ List.mem_cons_self
    | a :: b :: rest, _ => exact mem_nodesBelowTop_of_above (ih nofun)

/-- Every pair hashed for the top is one of nodes. -/
theorem exists_of_mem_pairsBelowTop {fuel : Nat} {level : List Hash} {bytes : Bytes}
    (h : bytes ∈ pairsBelowTop fuel level) :
    ∃ a ∈ nodesBelowTop fuel level, ∃ b ∈ nodesBelowTop fuel level, bytes = pairBytes a b := by
  induction fuel generalizing level with
  | zero =>
    match level, h with
    | _ :: _ :: _, h => cases h
  | succ fuel ih =>
    match level, h with
    | a :: b :: rest, h =>
      rcases List.mem_append.mp h with h | h
      · obtain ⟨c, hc, d, hd, hbytes⟩ := exists_of_mem_pairsAbove h
        exact ⟨c, List.mem_append_left _ hc, d, List.mem_append_left _ hd, hbytes⟩
      · obtain ⟨c, hc, d, hd, hbytes⟩ := ih h
        exact ⟨c, mem_nodesBelowTop_of_above hc, d, mem_nodesBelowTop_of_above hd, hbytes⟩

/-! ## Climbing to the root -/

variable {payloads : List Bytes}

/-- The nodes of a tree are the digests of what is hashed for it. -/
theorem nodes_eq_map (payloads : List Bytes) :
    nodesBelowTop payloads.length (payloads.map Sha256.hash) =
      (payloads ++ innerPairs payloads).map Sha256.hash := List.map_append.symm

theorem root_mem (hne : payloads ≠ []) : root (payloads.map Sha256.hash) ∈
    (payloads ++ innerPairs payloads).map Sha256.hash := by
  rw [root, List.length_map, ← nodes_eq_map]
  exact topOf_mem _ fun hempty => hne (List.map_eq_nil_iff.mp hempty)

/-- A node hashed in an inner pair of the tree is a node of the tree. -/
theorem mem_of_climbBytes_mem {current : Hash} {sibling : Sibling}
    (h : climbBytes current sibling ∈ innerPairs payloads) :
    current ∈ (payloads ++ innerPairs payloads).map Sha256.hash := by
  obtain ⟨a, ha, b, hb, hbytes⟩ := exists_of_mem_pairsBelowTop h
  rw [← nodes_eq_map]
  rcases eq_or_eq_of_climbBytes hbytes with rfl | rfl
  · exact ha
  · exact hb

/-- Bytes whose digest is a node were hashed for the tree, unless they collide. -/
theorem mem_of_node {bytes : Bytes}
    (hnode : Sha256.hash bytes ∈ (payloads ++ innerPairs payloads).map Sha256.hash)
    (hsafe : ∀ b ∈ payloads ++ innerPairs payloads, Sha256.hash bytes = Sha256.hash b → bytes = b) :
    bytes ∈ payloads ++ innerPairs payloads := by
  obtain ⟨b, hb, hdigest⟩ := List.mem_map.mp hnode
  rwa [hsafe b hb hdigest.symm]

/-- What a path starts from was hashed for the tree if the path ends at one of its nodes, unless a
payload is climbed through or what is hashed on the path collides with what is hashed for the tree.
The induction is on the path; what its rest starts from is the pair hashed at its first step. -/
theorem mem_of_climb {start : Bytes} {path : List Sibling}
    (hend : path.foldl climb (Sha256.hash start) ∈
      (payloads ++ innerPairs payloads).map Sha256.hash)
    (hapart : ∀ q ∈ payloads, q ∉ climbed (Sha256.hash start) path)
    (hsafe : ∀ a ∈ start :: climbed (Sha256.hash start) path,
      ∀ b ∈ payloads ++ innerPairs payloads, Sha256.hash a = Sha256.hash b → a = b) :
    start ∈ payloads ++ innerPairs payloads := by
  induction path generalizing start with
  | nil => exact mem_of_node hend (hsafe start List.mem_cons_self)
  | cons sibling path ih =>
    refine mem_of_node ?_ (hsafe start List.mem_cons_self)
    rw [climbed, climb_eq_hash] at hapart hsafe
    rw [List.foldl_cons, climb_eq_hash] at hend
    have hpair : climbBytes (Sha256.hash start) sibling ∈ payloads ++ innerPairs payloads :=
      ih hend (fun q hq hclimbed => hapart q hq (List.mem_cons_of_mem _ hclimbed))
        fun a ha => hsafe a (List.mem_cons_of_mem _ ha)
    rcases List.mem_append.mp hpair with hpayload | hinner
    · exact absurd List.mem_cons_self (hapart _ hpayload)
    · exact mem_of_climbBytes_mem hinner

theorem length_of_mem_climbed {start : Hash} {path : List Sibling} {bytes : Bytes}
    (h : bytes ∈ climbed start path) : bytes.length = 64 := by
  induction path generalizing start with
  | nil => cases h
  | cons sibling path ih =>
    rcases List.mem_cons.mp h with rfl | h
    · exact length_climbBytes start sibling
    · exact ih h

theorem length_of_mem_innerPairs {bytes : Bytes} (h : bytes ∈ innerPairs payloads) :
    bytes.length = 64 := by
  obtain ⟨a, -, b, -, rfl⟩ := exists_of_mem_pairsBelowTop h
  exact length_pairBytes a b

/-- What a path may start from when it leads to the root over payloads: it was hashed for the root,
or a payload is climbed through, or there is a collision. -/
theorem mem_or_climbed_or_collides {start : Bytes} {path : List Sibling} (hne : payloads ≠ [])
    (h : includes (Sha256.hash start) path (root (payloads.map Sha256.hash)) = true) :
    start ∈ payloads ++ innerPairs payloads ∨
      (∃ q ∈ payloads, q ∈ climbed (Sha256.hash start) path) ∨
      Collides (start :: payloads ++ climbed (Sha256.hash start) path ++ innerPairs payloads) := by
  have hend : path.foldl climb (Sha256.hash start) ∈
      (payloads ++ innerPairs payloads).map Sha256.hash := eq_of_beq h ▸ root_mem hne
  by_cases hthrough : ∃ q ∈ payloads, q ∈ climbed (Sha256.hash start) path
  · exact .inr (.inl hthrough)
  by_cases hcollides :
      Collides (start :: payloads ++ climbed (Sha256.hash start) path ++ innerPairs payloads)
  · exact .inr (.inr hcollides)
  refine .inl (mem_of_climb hend (fun q hq hclimbed => hthrough ⟨q, hq, hclimbed⟩) ?_)
  intro a ha b hb hdigest
  by_cases hsame : a = b
  · exact hsame
  · refine absurd ⟨a, ?_, b, ?_, hsame, hdigest⟩ hcollides
    · rcases List.mem_cons.mp ha with rfl | ha
      · simp
      · simp [ha]
    · rcases List.mem_append.mp hb with hb | hb <;> simp [hb]

/-- Where neither the included payload nor one of the tree has the length of a pair, only a
collision lets a path start from anything but one of the payloads. -/
theorem included_of_length_ne {payload : Bytes} {path : List Sibling} (hne : payloads ≠ [])
    (hlength : ∀ q ∈ payload :: payloads, q.length ≠ 64)
    (h : includes (Sha256.hash payload) path (root (payloads.map Sha256.hash)) = true) :
    payload ∈ payloads ∨
      Collides (payload :: payloads ++ climbed (Sha256.hash payload) path ++
        innerPairs payloads) := by
  rcases mem_or_climbed_or_collides hne h with hmem | ⟨q, hq, hclimbed⟩ | hcollides
  · rcases List.mem_append.mp hmem with hmem | hinner
    · exact .inl hmem
    · exact absurd (length_of_mem_innerPairs hinner) (hlength payload List.mem_cons_self)
  · exact absurd (length_of_mem_climbed hclimbed) (hlength q (List.mem_cons_of_mem _ hq))
  · exact .inr hcollides

/-- Nothing else is included. A path that leads to the root over payloads starts from one of them,
or from a pair hashed for the root, or it climbs through a payload that is itself a pair; else two
different byte strings that were hashed, on the path or for the root, have one digest. -/
theorem included_cases {payload : Bytes} {path : List Sibling} (hne : payloads ≠ [])
    (h : includes (Sha256.hash payload) path (root (payloads.map Sha256.hash)) = true) :
    payload ∈ payloads ∨ payload ∈ innerPairs payloads ∨
      (∃ q ∈ payloads, q ∈ climbed (Sha256.hash payload) path) ∨
      Collides (payload :: payloads ++ climbed (Sha256.hash payload) path ++
        innerPairs payloads) := by
  rw [← or_assoc, ← List.mem_append]
  exact mem_or_climbed_or_collides hne h

/-! ### Pairs and payloads mistaken for each other -/

/-- Two payloads of one byte each. -/
def shortPayloads : List Bytes := [[1], [2]]

/-- The pair over their leaves. -/
def shortPair : Bytes := pairBytes (Sha256.hash [1]) (Sha256.hash [2])

/-- A payload with the form of a pair, over the leaf of a short one. -/
def pairPayload : Bytes := pairBytes (.zero 32) (Sha256.hash [1])

/-- The path from below this payload. -/
def pathThrough : List Sibling := [⟨.left, .zero 32⟩]

/-- A pair hashed for the root is included without being a payload, and so is what stands below a
payload that has the form of a pair; no two byte strings that were hashed collide. -/
theorem pair_and_payload_confused :
    (includes (Sha256.hash shortPair) [] (root (shortPayloads.map Sha256.hash)) = true ∧
        shortPair ∉ shortPayloads ∧
        ¬ Collides (shortPair :: shortPayloads ++ climbed (Sha256.hash shortPair) [] ++
          innerPairs shortPayloads)) ∧
      (includes (Sha256.hash [1]) pathThrough (root ([pairPayload].map Sha256.hash)) = true ∧
        [1] ∉ [pairPayload] ∧
        ¬ Collides ([1] :: [pairPayload] ++ climbed (Sha256.hash [1]) pathThrough ++
          innerPairs [pairPayload])) := by
  decide +kernel

/-- The second of two payloads, found by its path. -/
theorem second_payload_included :
    shortPayloads ≠ [] ∧ includes (Sha256.hash [2]) [⟨.left, Sha256.hash [1]⟩]
        (root (shortPayloads.map Sha256.hash)) = true ∧
      ([2] ∈ shortPayloads ∨ [2] ∈ innerPairs shortPayloads ∨
        (∃ q ∈ shortPayloads, q ∈ climbed (Sha256.hash [2]) [⟨.left, Sha256.hash [1]⟩]) ∨
        Collides ([2] :: shortPayloads ++
          climbed (Sha256.hash [2]) [⟨.left, Sha256.hash [1]⟩] ++ innerPairs shortPayloads)) := by
  have hnonempty : shortPayloads ≠ [] := List.cons_ne_nil _ _
  have hincluded : includes (Sha256.hash [2]) [⟨.left, Sha256.hash [1]⟩]
      (root (shortPayloads.map Sha256.hash)) = true := by decide +kernel
  exact ⟨hnonempty, hincluded, included_cases hnonempty hincluded⟩

end BridgeKernel.Merkle
