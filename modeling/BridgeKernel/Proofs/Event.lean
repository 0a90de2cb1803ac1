import BridgeKernel.Claim.Relay
import BridgeKernel.Proofs.Checks
import BridgeKernel.Proofs.Wire.RlpSpelling
import Mathlib.Control.Monad.Basic

/-!
# The bytes of events

The seven items of an event have one spelling each, and an event is read from exactly those bytes in
which its items are listed. Its own encoding is one of them. The others have a header that announces
another length, or go on behind the seventh item with bytes that are no whole item, so an event has
many accepted forms, and each has a digest and votes of its own.
-/

namespace BridgeKernel.Event

/-- The seven items of an event. -/
def items (e : Event) : List Bytes :=
  [Rlp.encodeBytes e.txHash, Rlp.encodeBytes e.crossChainId, Rlp.encodeBytes e.fromContract,
    Rlp.encodeNat e.toChain.toNat, Rlp.encodeBytes e.toContract, Rlp.encodeBytes e.method,
    Rlp.encodeBytes e.args]

variable {e : Event} {bytes : Bytes}

/-- A chain number is read from its item and from no other. -/
theorem readChain_ok_iff {n : Nat} {item : Bytes} (hitem : Rlp.Whole item) :
    Rlp.readNat 8 item = .ok n ↔ ∃ chain : ChainId, chain.toNat = n ∧
      item = Rlp.encodeNat chain.toNat := by
  rw [Rlp.readNat_ok_iff (by decide) hitem]
  constructor
  · rintro ⟨hn, rfl⟩
    have hvalue : (UInt64.ofNat n).toNat = n := UInt64.toNat_ofNat_of_lt' hn
    exact ⟨UInt64.ofNat n, hvalue, by rw [hvalue]⟩
  · rintro ⟨chain, rfl, rfl⟩
    exact ⟨chain.toNat_lt, rfl⟩

/-- An event is read from its own items and from no others. -/
theorem ofItems_ok_iff {found : List Bytes} (hwhole : ∀ item ∈ found, Rlp.Whole item) :
    ofItems found = .ok e ↔ found = e.items := by
  constructor
  · intro h
    unfold ofItems at h
    split at h
    · next txHash crossChainId fromContract toChain toContract method args =>
      simp only [List.forall_mem_cons] at hwhole
      obtain ⟨w₁, w₂, w₃, w₄, w₅, w₆, w₇, -⟩ := hwhole
      obtain ⟨_, h₁, h⟩ := Except.bind_ok h
      obtain ⟨_, h₂, h⟩ := Except.bind_ok h
      obtain ⟨_, h₃, h⟩ := Except.bind_ok h
      obtain ⟨_, h₄, h⟩ := Except.bind_ok h
      obtain ⟨_, h₅, h⟩ := Except.bind_ok h
      obtain ⟨_, h₆, h⟩ := Except.bind_ok h
      obtain ⟨_, h₇, h⟩ := Except.bind_ok h
      cases h
      obtain ⟨chain, rfl, hchain⟩ := (readChain_ok_iff w₄).mp h₄
      rw [items, UInt64.ofNat_toNat, hchain, (Rlp.readBytes_ok w₁ h₁).2, (Rlp.readBytes_ok w₂ h₂).2,
        (Rlp.readBytes_ok w₃ h₃).2, (Rlp.readBytes_ok w₅ h₅).2, (Rlp.readBytes_ok w₆ h₆).2,
        (Rlp.readBytes_ok w₇ h₇).2]
    · cases h
  · rintro rfl
    simp only [items, List.forall_mem_cons, Rlp.whole_encodeBytes_iff] at hwhole
    obtain ⟨w₁, w₂, w₃, w₄, w₅, w₆, w₇, -⟩ := hwhole
    have hchain := (readChain_ok_iff w₄).mpr ⟨e.toChain, rfl, rfl⟩
    simp only [items, ofItems, Rlp.readBytes_encodeBytes, w₁, w₂, w₃, w₅, w₆, w₇, hchain, bind,
      Except.bind, UInt64.ofNat_toNat]
    rfl

theorem decode_eq_ok_iff : decode bytes = .ok e ↔ Rlp.items bytes >>= ofItems = .ok e := by
  unfold decode
  cases Rlp.items bytes >>= ofItems <;> simp

/-- An event is read from exactly those bytes in which its items are listed. -/
theorem decode_ok_iff :
    decode bytes = .ok e ↔ ∃ announced rest, Rlp.Lists e.items announced rest bytes := by
  rw [decode_eq_ok_iff]
  constructor
  · intro h
    obtain ⟨found, hfound, h⟩ := Except.bind_ok h
    cases found with
    | nil => cases h
    | cons first others =>
      obtain ⟨announced, rest, hlists⟩ := Rlp.items_cons_ok_iff.mp hfound
      rw [← (ofItems_ok_iff hlists.whole).mp h]
      exact ⟨announced, rest, hlists⟩
  · rintro ⟨announced, rest, hlists⟩
    have hfound : Rlp.items bytes = .ok e.items := Rlp.items_cons_ok_iff.mpr ⟨announced, rest, hlists⟩
    rw [hfound]
    exact (ofItems_ok_iff hlists.whole).mpr rfl

theorem items_spelled (e : Event) : ∀ item ∈ e.items, ∃ bytes, item = Rlp.encodeBytes bytes := by
  simp only [items, List.forall_mem_cons]
  exact ⟨⟨_, rfl⟩, ⟨_, rfl⟩, ⟨_, rfl⟩, ⟨_, rfl⟩, ⟨_, rfl⟩, ⟨_, rfl⟩, ⟨_, rfl⟩, List.forall_mem_nil _⟩

/-- An event of a length that can be announced is read back. -/
theorem decode_encode (h : e.encode.length < 256 ^ 8) : decode e.encode = .ok e := by
  have hwhole := Rlp.whole_of_spelled e.items_spelled h
  exact decode_ok_iff.mpr ⟨_, [], Rlp.lists_encodeList hwhole (Rlp.length_flatten_lt h)⟩

/-! ## Accepted forms -/

/-- An event is accepted in exactly those bytes in which a list header, with its length in shortest
form, is followed by the seven items of the event and then by nothing that is a whole item, where the
announced payload holds the first item and is held by the bytes. Among them the encoding of the event
is told by two signs: the header announces the seven items, and nothing follows them. -/
theorem accepted_forms (bytes : Bytes) (e : Event) :
    (decode bytes = .ok e ↔ ∃ announced rest, Rlp.Lists e.items announced rest bytes) ∧
      ∀ announced rest, Rlp.Lists e.items announced rest bytes →
        (bytes = e.encode ↔ announced = e.items.flatten.length ∧ rest = []) :=
  ⟨decode_ok_iff, fun _ _ hlists => hlists.eq_encodeList_iff (show 7 < 255 by decide)⟩

/-- A short event for chain 7. -/
def brief : Event := ⟨[0xaa], [0x42], [], 7, [0x20], [0x6d], [1]⟩

/-- The event with a byte behind it that begins an item and does not end it. -/
def briefTrailed : Bytes := brief.encode ++ [0x81]

/-- The event behind a header that announces its first item only. -/
def briefShortened : Bytes := Rlp.header 0xc0 2 ++ brief.items.flatten

/-- The event is accepted in bytes that are not its encoding. -/
theorem brief_accepted :
    decode briefTrailed = .ok brief ∧ ∃ announced rest,
      Rlp.Lists brief.items announced rest briefTrailed ∧
      (briefTrailed = brief.encode ↔ announced = brief.items.flatten.length ∧ rest = []) := by
  have hdecode : decode briefTrailed = .ok brief := rfl
  obtain ⟨hforms, hcanonical⟩ := accepted_forms briefTrailed brief
  obtain ⟨announced, rest, hlists⟩ := hforms.mp hdecode
  exact ⟨hdecode, announced, rest, hlists, hcanonical announced rest hlists⟩

/-- Three different byte strings carry the event, so the same instruction, and validators that attest
it in these forms vote for three different messages. -/
theorem second_forms_accepted :
    decode briefTrailed = .ok brief ∧ decode briefShortened = .ok brief ∧
      briefTrailed ≠ brief.encode ∧ briefShortened ≠ brief.encode ∧
      Claim.bind .standard 7 1 briefTrailed = Claim.bind .standard 7 1 brief.encode ∧
      Claim.bind .standard 7 1 briefShortened = Claim.bind .standard 7 1 brief.encode ∧
      (Claim.bind .standard 7 1 brief.encode).toOption.isSome = true ∧
      [brief.encode, briefTrailed, briefShortened].Pairwise fun a b =>
        RelayClaim.voteMessage 1 a ≠ RelayClaim.voteMessage 1 b := by
  refine ⟨rfl, rfl, by decide, by decide, ?_, ?_, ?_, by decide⟩ <;> decide +kernel

end BridgeKernel.Event
