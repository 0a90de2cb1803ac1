import BridgeKernel.Proofs.Checks
import BridgeKernel.Trie.Patricia
import BridgeKernel.Trie.Tagged
import Mathlib.Control.Monad.Basic

/-!
# A root holds one value for a key

A walk down a trie is led by the digests in its nodes, and a proof only supplies the nodes with these
digests. So two proofs for one key under one root that show different values contain, where their
walks part, two different nodes with one digest.
-/

namespace BridgeKernel

/-- Two different byte strings among those known have one digest. -/
def Collision (digest : Bytes → Hash) (known : List Bytes) : Prop :=
  ∃ a ∈ known, ∃ b ∈ known, a ≠ b ∧ digest a = digest b

section

variable {digest : Bytes → Hash} {known known' more more' : List Bytes} {a b : Bytes}

theorem Collision.mono (h : Collision digest known) (hsub : known ⊆ more) :
    Collision digest more := by
  obtain ⟨a, ha, b, hb, hne, heq⟩ := h
  exact ⟨a, hsub ha, b, hsub hb, hne, heq⟩

theorem Collision.of_parts (h : Collision digest (known ++ known')) (hknown : known ⊆ more)
    (hknown' : known' ⊆ more') : Collision digest (more ++ more') :=
  h.mono (List.append_subset.mpr ⟨List.Subset.trans hknown (List.subset_append_left _ _),
    List.Subset.trans hknown' (List.subset_append_right _ _)⟩)

/-- Byte strings with one digest are equal, or collide. -/
theorem eq_or_collision (h : digest a = digest b) (ha : a ∈ known) (hb : b ∈ known) :
    a = b ∨ Collision digest known := by
  by_cases hne : a = b
  · exact .inl hne
  · exact .inr ⟨a, ha, b, hb, hne, h⟩

end

/-! ## Tagged tries -/

namespace TaggedTrie

/-- A walk that came to a value found the wanted node first in the proof, and ended there or went
on from there. -/
theorem walk_ok {key : Bytes} {depth : Nat} {wanted : Hash} {path : List UInt8}
    {proof : List Bytes} {value : Bytes} (h : walk key depth wanted path proof = .ok value) :
    ∃ bytes node rest, proof = bytes :: rest ∧ TaggedNode.digest bytes = wanted ∧
      TaggedNode.decode bytes = .ok node ∧
      ((step node path = .value value ∧ rest = []) ∨
        ∃ child path', step node path = .descend child path' ∧
          walk key (depth + 1) child path' rest = .ok value) := by
  cases proof with
  | nil => cases h
  | cons bytes rest =>
    rw [walk] at h
    split at h
    · cases h
    · next hdigest =>
      split at h
      · cases h
      · next node hdecode =>
        refine ⟨bytes, node, rest, rfl, Decidable.not_not.mp hdigest, hdecode, ?_⟩
        split at h
        · cases h
        · next found hstep =>
          split at h
          · next hrest =>
            cases h
            exact .inl ⟨hstep, List.isEmpty_iff.mp hrest⟩
          · cases h
        · next child path' hstep => exact .inr ⟨child, path', hstep, h⟩

/-- Two walks to one node along one path use one proof and come to one value, or nodes of theirs
collide. -/
theorem walk_binding {key key' : Bytes} {depth depth' : Nat} {wanted : Hash} {path : List UInt8}
    {proof proof' : List Bytes} {value value' : Bytes}
    (h : walk key depth wanted path proof = .ok value)
    (h' : walk key' depth' wanted path proof' = .ok value') :
    (value = value' ∧ proof = proof') ∨ Collision TaggedNode.digest (proof ++ proof') := by
  induction proof generalizing depth depth' wanted path proof' with
  | nil => cases h
  | cons bytes rest ih =>
    obtain ⟨_, node, _, hproof, hdigest, hdecode, hends⟩ := walk_ok h
    cases hproof
    obtain ⟨bytes', node', rest', rfl, hdigest', hdecode', hends'⟩ := walk_ok h'
    have hfirst : bytes ∈ bytes :: rest ++ bytes' :: rest' := List.mem_cons_self
    have hsecond : bytes' ∈ bytes :: rest ++ bytes' :: rest' :=
      List.mem_append_right _ List.mem_cons_self
    rcases eq_or_collision (hdigest.trans hdigest'.symm) hfirst hsecond with rfl | hcollision
    · obtain rfl := Except.ok.inj (hdecode.symm.trans hdecode')
      rcases hends with ⟨hstep, rfl⟩ | ⟨child, path', hstep, hrest⟩
      · rcases hends' with ⟨hstep', rfl⟩ | ⟨child', path'', hstep', -⟩
        · exact .inl ⟨Step.value.inj (hstep.symm.trans hstep'), rfl⟩
        · cases hstep.symm.trans hstep'
      · rcases hends' with ⟨hstep', -⟩ | ⟨child', path'', hstep', hrest'⟩
        · cases hstep.symm.trans hstep'
        · cases hstep.symm.trans hstep'
          rcases ih hrest hrest' with ⟨rfl, rfl⟩ | hcollision
          · exact .inl ⟨rfl, rfl⟩
          · exact .inr
              (hcollision.of_parts (List.subset_cons_self _ _) (List.subset_cons_self _ _))
    · exact .inr hcollision

/-- A root holds one value for a key, and one proof shows it, or nodes of two proofs collide. -/
theorem verify_binding {root : Hash} {key : Bytes} {proof proof' : List Bytes} {max max' : Nat}
    {value value' : Bytes} (h : verify root key proof max = .ok value)
    (h' : verify root key proof' max' = .ok value') :
    (value = value' ∧ proof = proof') ∨ Collision TaggedNode.digest (proof ++ proof') := by
  unfold verify at h h'
  split at h
  · cases h
  · split at h'
    · cases h'
    · exact walk_binding h h'

end TaggedTrie

/-! ## Keccak tries -/

namespace Patricia

theorem fetch_ok {depth : Nat} {next : ChildRef} {proof : List Bytes} {node : Bytes}
    {rest : List Bytes} (h : fetch depth next proof = .ok (node, rest)) :
    (next = .embedded node ∧ rest = proof) ∨
      ∃ digest, next = .hashed digest ∧ proof = node :: rest ∧ Keccak256.hash node = digest := by
  unfold fetch at h
  split at h
  · cases h
    exact .inl ⟨rfl, rfl⟩
  · cases h
  · split at h
    · next hdigest =>
      cases h
      exact .inr ⟨_, rfl, rfl, hdigest⟩
    · cases h

/-- Two nodes fetched for one reference are equal, or collide. -/
theorem fetch_binding {depth depth' : Nat} {next : ChildRef} {proof proof' : List Bytes}
    {node node' : Bytes} {rest rest' : List Bytes}
    (h : fetch depth next proof = .ok (node, rest))
    (h' : fetch depth' next proof' = .ok (node', rest')) :
    (node = node' ∧ ∃ front, proof = front ++ rest ∧ proof' = front ++ rest') ∨
      Collision Keccak256.hash (proof ++ proof') := by
  rcases fetch_ok h with ⟨rfl, rfl⟩ | ⟨digest, rfl, rfl, hdigest⟩
  · rcases fetch_ok h' with ⟨hnode, rfl⟩ | ⟨digest', hnode, -⟩
    · cases hnode
      exact .inl ⟨rfl, [], rfl, rfl⟩
    · cases hnode
  · rcases fetch_ok h' with ⟨hnode, -⟩ | ⟨digest', hnode, rfl, hdigest'⟩
    · cases hnode
    · cases hnode
      have hfirst : node ∈ node :: rest ++ node' :: rest' := List.mem_cons_self
      have hsecond : node' ∈ node :: rest ++ node' :: rest' :=
        List.mem_append_right _ List.mem_cons_self
      rcases eq_or_collision (hdigest.trans hdigest'.symm) hfirst hsecond with rfl | hcollision
      · exact .inl ⟨rfl, [node], rfl, rfl⟩
      · exact .inr hcollision

/-- A walk that came to a value fetched a node, and ended there or went on from there. -/
theorem walk_ok {key : Bytes} {max fuel depth : Nat} {next : ChildRef} {path : List UInt8}
    {proof : List Bytes} {value : Bytes}
    (h : walk key max (fuel + 1) depth next path proof = .ok value) :
    ∃ node rest, fetch depth next proof = .ok (node, rest) ∧
      ((step node path = .ok (.value value) ∧ rest = []) ∨
        ∃ child path', step node path = .ok (.descend child path') ∧
          walk key max fuel (depth + 1) child path' rest = .ok value) := by
  rw [walk] at h
  obtain ⟨⟨node, rest⟩, hfetch, h⟩ := Except.bind_ok h
  refine ⟨node, rest, hfetch, ?_⟩
  dsimp only at h
  split at h
  · cases h
  · cases h
  · next found hstep =>
    split at h
    · next hrest =>
      cases h
      exact .inl ⟨hstep, List.isEmpty_iff.mp hrest⟩
    · cases h
  · next child path' hstep => exact .inr ⟨child, path', hstep, h⟩

/-- Two walks from one reference along one path use one proof and come to one value, or nodes of
theirs collide. -/
theorem walk_binding {key key' : Bytes} {max max' fuel fuel' depth depth' : Nat} {next : ChildRef}
    {path : List UInt8} {proof proof' : List Bytes} {value value' : Bytes}
    (h : walk key max fuel depth next path proof = .ok value)
    (h' : walk key' max' fuel' depth' next path proof' = .ok value') :
    (value = value' ∧ proof = proof') ∨ Collision Keccak256.hash (proof ++ proof') := by
  induction fuel generalizing fuel' depth depth' next path proof proof' with
  | zero => cases h
  | succ fuel ih =>
    cases fuel' with
    | zero => cases h'
    | succ fuel' =>
      obtain ⟨node, rest, hfetch, hends⟩ := walk_ok h
      obtain ⟨node', rest', hfetch', hends'⟩ := walk_ok h'
      rcases fetch_binding hfetch hfetch' with ⟨rfl, front, rfl, rfl⟩ | hcollision
      · rcases hends with ⟨hstep, rfl⟩ | ⟨child, path', hstep, hgoes⟩
        · rcases hends' with ⟨hstep', rfl⟩ | ⟨child', path'', hstep', -⟩
          · cases hstep.symm.trans hstep'
            exact .inl ⟨rfl, rfl⟩
          · cases hstep.symm.trans hstep'
        · rcases hends' with ⟨hstep', -⟩ | ⟨child', path'', hstep', hgoes'⟩
          · cases hstep.symm.trans hstep'
          · cases hstep.symm.trans hstep'
            rcases ih hgoes hgoes' with ⟨rfl, rfl⟩ | hcollision
            · exact .inl ⟨rfl, rfl⟩
            · exact .inr (hcollision.of_parts (List.subset_append_right _ _)
                (List.subset_append_right _ _))
      · exact .inr hcollision

/-- A root holds one value for a key, and one proof shows it, or nodes of two proofs collide. -/
theorem verify_binding {root : Hash} {key : Bytes} {proof proof' : List Bytes} {max max' : Nat}
    {value value' : Bytes} (h : verify root key proof max = .ok value)
    (h' : verify root key proof' max' = .ok value') :
    (value = value' ∧ proof = proof') ∨ Collision Keccak256.hash (proof ++ proof') := by
  unfold verify at h h'
  split at h
  · cases h
  · split at h'
    · cases h'
    · exact walk_binding h h'

end Patricia

/-! ## Roots as commitments -/

/-- Under a verifier a root holds one value for a key, and one proof shows it, whatever the bounds
on its length, or nodes of two proofs collide. -/
def Commits (digest : Bytes → Hash)
    (verify : Hash → Bytes → List Bytes → Nat → Except TrieError Bytes) : Prop :=
  ∀ root key proof proof' max max' value value',
    verify root key proof max = .ok value → verify root key proof' max' = .ok value' →
      (value = value' ∧ proof = proof') ∨ Collision digest (proof ++ proof')

/-- Roots of both kinds of tries commit to their values and proofs, whether or not there is a trie
with the root. -/
theorem roots_commit :
    Commits Keccak256.hash Patricia.verify ∧ Commits TaggedNode.digest TaggedTrie.verify := by
  constructor
  · intro root key proof proof' max max' value value' h h'
    exact Patricia.verify_binding h h'
  · intro root key proof proof' max max' value value' h h'
    exact TaggedTrie.verify_binding h h'

/-- The bytes of a leaf with a value under the two nibbles of a key. -/
def shortLeaf : Bytes := [0xc4, 0x82, 0x20, 0x12, 0x05]

/-- The bytes of a leaf with the same value. -/
def taggedLeaf : Bytes := [0x02, 0x01, 0x05]

theorem leaf_roots_committed :
    (∀ proof value, Patricia.verify (Keccak256.hash shortLeaf) [0x12] proof 4 = .ok value →
      (value = [5] ∧ proof = [shortLeaf]) ∨ Collision Keccak256.hash (proof ++ [shortLeaf])) ∧
    ∀ proof value, TaggedTrie.verify (TaggedNode.digest taggedLeaf) [] proof 4 = .ok value →
      (value = [5] ∧ proof = [taggedLeaf]) ∨
        Collision TaggedNode.digest (proof ++ [taggedLeaf]) := by
  have hshort : Patricia.verify (Keccak256.hash shortLeaf) [0x12] [shortLeaf] 1 = .ok [5] := by
    decide +kernel
  have htagged : TaggedTrie.verify (TaggedNode.digest taggedLeaf) [] [taggedLeaf] 1 = .ok [5] := by
    decide +kernel
  obtain ⟨hkeccak, hsha⟩ := roots_commit
  constructor
  · intro proof value h
    exact hkeccak _ _ _ _ _ _ _ _ h hshort
  · intro proof value h
    exact hsha _ _ _ _ _ _ _ _ h htagged

end BridgeKernel
