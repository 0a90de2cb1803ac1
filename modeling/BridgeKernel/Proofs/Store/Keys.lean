import BridgeKernel.Proofs.Wire.Lawful
import BridgeKernel.Store.Key

/-!
# Record keys tell records apart

No tag holds a slash, so the tag of a key can be read off its bytes. What follows the tag has fixed
widths before its last part, so under one module address the bytes of a key determine what the
record is about.
-/

namespace BridgeKernel

namespace Bytes

/-- Numbers below the range of a width are told apart by their big-endian form. -/
theorem ofNatBE_inj {width a b : Nat} (ha : a < 256 ^ width) (hb : b < 256 ^ width)
    (h : ofNatBE width a = ofNatBE width b) : a = b := by
  have ht := congrArg toNatBE h
  rwa [toNatBE_ofNatBE, toNatBE_ofNatBE, Nat.mod_eq_of_lt ha, Nat.mod_eq_of_lt hb] at ht

end Bytes

/-- Texts are told apart by their bytes. -/
theorem Utf8.encode_injective : Function.Injective Utf8.encode := by
  intro a b h
  have hd := Utf8.decode?_encode a
  rw [h, Utf8.decode?_encode] at hd
  exact (Option.some.inj hd).symm

namespace RecordKind

/-- A tag holds no slash. -/
theorem slash_not_mem_tag (kind : RecordKind) : (0x2f : UInt8) ∉ kind.tag := by
  cases kind <;> decide

/-- Kinds are told apart by their tags. -/
theorem tag_injective : Function.Injective RecordKind.tag := by
  intro a b
  cases a <;> cases b <;> decide +kernel

/-- A tag and what follows its slash can be read off their common bytes. -/
theorem tag_append_inj {a b : RecordKind} {x y : Bytes}
    (h : a.tag ++ [0x2f] ++ x = b.tag ++ [0x2f] ++ y) : a = b ∧ x = y := by
  have cut (kind : RecordKind) (z : Bytes) :
      (kind.tag ++ [0x2f] ++ z).takeWhile (· != 0x2f) = kind.tag := by
    rw [List.append_assoc, List.takeWhile_append_of_pos]
    · simp
    · intro c hc
      simp only [bne_iff_ne, ne_eq]
      rintro rfl
      exact kind.slash_not_mem_tag hc
  have htag := congrArg (List.takeWhile (· != 0x2f)) h
  rw [cut, cut] at htag
  have hkind := tag_injective htag
  subst hkind
  exact ⟨rfl, List.append_cancel_left h⟩

end RecordKind

namespace KeySegment

/-- A number before other segments can be read off their common bytes. -/
theorem number_append_inj {a b : UInt64} {x y : Bytes}
    (h : (number a).toBytes ++ x = (number b).toBytes ++ y) : a = b ∧ x = y := by
  have hl : (number a).toBytes.length = (number b).toBytes.length := by simp [toBytes]
  obtain ⟨hn, hx⟩ := List.append_inj h hl
  exact ⟨UInt64.toNat_inj.mp (Bytes.ofNatBE_inj a.toNat_lt b.toNat_lt hn), hx⟩

end KeySegment

namespace RecordKey

/-- The bytes after the slash of a record's key. -/
def suffix (key : RecordKey) : Bytes := key.segments.flatMap KeySegment.toBytes

theorem toBytes_eq (module : Bytes) (key : RecordKey) :
    key.toBytes module = module ++ (key.kind.tag ++ [0x2f] ++ key.suffix) := by
  simp [toBytes, keyBytes, suffix]

/-- Records of one kind are told apart by the bytes after the slash. -/
theorem eq_of_suffix {a b : RecordKey} (hk : a.kind = b.kind) (hs : a.suffix = b.suffix) :
    a = b := by
  cases a <;> cases b <;> cases hk <;>
    simp only [suffix, segments, List.flatMap_cons, List.flatMap_nil, List.append_nil] at hs
  case header.header =>
    obtain ⟨rfl, h⟩ := KeySegment.number_append_inj hs
    exact congrArg _ (FixedBytes.ext h)
  case canonical.canonical =>
    obtain ⟨rfl, h⟩ := KeySegment.number_append_inj hs
    obtain ⟨rfl, _⟩ := KeySegment.number_append_inj (congrArg (· ++ []) h)
    rfl
  case height.height | genesis.genesis | committee.committee =>
    obtain ⟨rfl, _⟩ := KeySegment.number_append_inj (congrArg (· ++ []) hs)
    rfl
  case epoch.epoch =>
    obtain ⟨rfl, h⟩ := KeySegment.number_append_inj hs
    obtain ⟨rfl, _⟩ := KeySegment.number_append_inj (congrArg (· ++ []) h)
    rfl
  case vote.vote | multisig.multisig => exact congrArg _ (FixedBytes.ext hs)
  case applied.applied =>
    obtain ⟨rfl, h⟩ := KeySegment.number_append_inj hs
    exact congrArg _ h
  case redeem.redeem | utxo.utxo | stxo.stxo =>
    obtain ⟨rfl, h⟩ := KeySegment.number_append_inj hs
    exact congrArg _ (Utf8.encode_injective h)
  case draft.draft =>
    obtain ⟨rfl, h⟩ := KeySegment.number_append_inj hs
    exact congrArg _ (FixedBytes.ext h)

/-- Under one module address a key's bytes determine what the record is about. -/
theorem toBytes_injective (module : Bytes) : Function.Injective (RecordKey.toBytes module) := by
  intro a b h
  rw [toBytes_eq, toBytes_eq] at h
  obtain ⟨hk, hs⟩ := RecordKind.tag_append_inj (List.append_cancel_left h)
  exact eq_of_suffix hk hs

@[simp] theorem toBytes_inj {module : Bytes} {a b : RecordKey} :
    a.toBytes module = b.toBytes module ↔ a = b := (toBytes_injective module).eq_iff

end RecordKey

end BridgeKernel
