import BridgeKernel.Proofs.Wire.Lawful

/-!
# Stored records have one form

What is read from the front of a byte string is the written form of the value that comes out, and
what is left follows it. So a value has one stored form. Each type of the format carries this law as
an instance beside the law that its form is read back. Maps are left out: their entries are put in
order when they are read, so entries in another order make the same map.
-/

namespace BridgeKernel

namespace Bytes

/-- Bytes are the low bytes of the number that they spell. -/
theorem ofNatLE_toNatLE (bytes : Bytes) : ofNatLE bytes.length (toNatLE bytes) = bytes := by
  induction bytes with
  | nil => rfl
  | cons b rest ih =>
    have hb : b.toNat < 256 := b.toNat_lt
    have hlow : UInt8.ofNat (b.toNat + 256 * toNatLE rest) = b := by
      apply UInt8.toNat_inj.mp
      rw [UInt8.toNat_ofNat']
      omega
    have hhigh : (b.toNat + 256 * toNatLE rest) / 256 = toNatLE rest := by omega
    rw [List.length_cons, toNatLE, ofNatLE, hlow, hhigh, ih]

theorem toNatLE_lt (bytes : Bytes) : toNatLE bytes < 256 ^ bytes.length := by
  have hmod := toNatLE_ofNatLE bytes.length (toNatLE bytes)
  rw [ofNatLE_toNatLE] at hmod
  rw [hmod]
  exact Nat.mod_lt _ (Nat.pow_pos (by decide))

end Bytes

namespace Wire

variable {ε γ δ : Type}

/-- A reader of several values that came to a result read its first part. -/
theorem bind_ok {take : StateT Bytes (Except ε) γ} {next : γ → StateT Bytes (Except ε) δ}
    {bytes rest : Bytes} {b : δ} (h : (take >>= next) bytes = .ok (b, rest)) :
    ∃ a middle, take bytes = .ok (a, middle) ∧ next a middle = .ok (b, rest) := by
  rw [bind_read] at h
  cases htake : take bytes with
  | error e =>
    rw [htake] at h
    cases h
  | ok result =>
    rw [htake] at h
    exact ⟨result.1, result.2, rfl, h⟩

theorem pure_ok {a b : γ} {bytes rest : Bytes}
    (h : (pure a : StateT Bytes (Except ε) γ) bytes = .ok (b, rest)) : a = b ∧ bytes = rest := by
  cases h
  exact ⟨rfl, rfl⟩

end Wire

/-- A type whose values are read from their stored form only. -/
class CanonicalRecord (α : Type) [Record α] : Prop where
  /-- What was read fits, and its stored form stood at the front. -/
  write_of_read : ∀ {bytes rest : Bytes} {a : α}, Record.read bytes = .ok (a, rest) →
    Record.fits a = true ∧ bytes = Record.write a ++ rest

namespace Record

open Wire

variable {α : Type} [Record α]

theorem takeBytes_ok {error : Error} {count : Nat} {bytes front rest : Bytes}
    (h : takeBytes error count bytes = .ok (front, rest)) :
    front.length = count ∧ bytes = front ++ rest := by
  unfold takeBytes at h
  split at h
  · next hle =>
    cases h
    exact ⟨List.length_take_of_le hle, (List.take_append_drop count bytes).symm⟩
  · cases h

/-- A number that was read stood at the front in its full width. -/
theorem takeNat_ok {width n : Nat} {bytes rest : Bytes} (h : takeNat width bytes = .ok (n, rest)) :
    n < 256 ^ width ∧ bytes = Bytes.ofNatLE width n ++ rest := by
  obtain ⟨front, _, htake, hpure⟩ := bind_ok h
  obtain ⟨rfl, rfl⟩ := pure_ok hpure
  obtain ⟨rfl, hbytes⟩ := takeBytes_ok htake
  rw [Bytes.ofNatLE_toNatLE]
  exact ⟨Bytes.toNatLE_lt front, hbytes⟩

/-- A number that was read as a value stood at the front. -/
theorem takeNat_pure_ok {γ : Type} {width : Nat} {make : Nat → γ} {a : γ} {bytes rest : Bytes}
    (h : (takeNat width >>= fun n => pure (make n)) bytes = .ok (a, rest)) :
    ∃ n, n < 256 ^ width ∧ a = make n ∧ bytes = Bytes.ofNatLE width n ++ rest := by
  obtain ⟨n, middle, htake, hpure⟩ := bind_ok h
  obtain ⟨rfl, rfl⟩ := pure_ok hpure
  obtain ⟨hn, hbytes⟩ := takeNat_ok htake
  exact ⟨n, hn, rfl, hbytes⟩

/-- Values that were read one after another stood at the front one after another. -/
theorem takeMany_ok [CanonicalRecord α] {count : Nat} {xs : List α} {bytes rest : Bytes}
    (h : takeMany (read (α := α)) count bytes = .ok (xs, rest)) :
    xs.length = count ∧ (∀ x ∈ xs, fits x = true) ∧ bytes = xs.flatMap write ++ rest := by
  induction count generalizing xs bytes with
  | zero =>
    obtain ⟨rfl, rfl⟩ := pure_ok h
    exact ⟨rfl, nofun, rfl⟩
  | succ count ih =>
    obtain ⟨first, middle, hfirst, h⟩ := bind_ok h
    obtain ⟨others, middle', hothers, hpure⟩ := bind_ok h
    obtain ⟨rfl, rfl⟩ := pure_ok hpure
    obtain ⟨hfits, rfl⟩ := CanonicalRecord.write_of_read hfirst
    obtain ⟨hlength, hall, rfl⟩ := ih hothers
    refine ⟨by rw [List.length_cons, hlength], List.forall_mem_cons.mpr ⟨hfits, hall⟩, ?_⟩
    rw [List.flatMap_cons, List.append_assoc]

instance : CanonicalRecord UInt8 where
  write_of_read h := by
    obtain ⟨n, hn, rfl, rfl⟩ := takeNat_pure_ok h
    exact ⟨rfl, rfl⟩

instance : CanonicalRecord UInt32 where
  write_of_read h := by
    obtain ⟨n, hn, rfl, rfl⟩ := takeNat_pure_ok h
    have hwrite : write (UInt32.ofNat n) = Bytes.ofNatLE 4 n :=
      congrArg (Bytes.ofNatLE 4) (UInt32.toNat_ofNat_of_lt' hn)
    exact ⟨rfl, by rw [hwrite]⟩

instance : CanonicalRecord UInt64 where
  write_of_read h := by
    obtain ⟨n, hn, rfl, rfl⟩ := takeNat_pure_ok h
    have hwrite : write (UInt64.ofNat n) = Bytes.ofNatLE 8 n :=
      congrArg (Bytes.ofNatLE 8) (UInt64.toNat_ofNat_of_lt' hn)
    exact ⟨rfl, by rw [hwrite]⟩

instance {n : Nat} : CanonicalRecord (FixedBytes n) where
  write_of_read {bytes rest a} h := by
    change takeFixed n bytes = _ at h
    unfold takeFixed at h
    split at h
    · cases h
      exact ⟨rfl, (List.take_append_drop n bytes).symm⟩
    · cases h

instance [CanonicalRecord α] : CanonicalRecord (List α) where
  write_of_read {bytes rest xs} h := by
    obtain ⟨count, middle, hcount, hmany⟩ := bind_ok h
    obtain ⟨hlt, rfl⟩ := takeNat_ok hcount
    obtain ⟨rfl, hall, rfl⟩ := takeMany_ok hmany
    exact ⟨fits_list_iff.mpr ⟨hlt, hall⟩, (List.append_assoc _ _ _).symm⟩

instance [CanonicalRecord α] : CanonicalRecord (Option α) where
  write_of_read {bytes rest a?} h := by
    obtain ⟨tag, middle, htag, hvalue⟩ := bind_ok h
    obtain ⟨-, hbytes⟩ := takeNat_ok htag
    rw [hbytes]
    rcases tag with _ | _ | found
    · obtain ⟨rfl, rfl⟩ := pure_ok hvalue
      exact ⟨rfl, rfl⟩
    · change (read >>= fun a => pure (some a)) middle = _ at hvalue
      obtain ⟨a, middle', hread, hpure⟩ := bind_ok hvalue
      obtain ⟨rfl, rfl⟩ := pure_ok hpure
      obtain ⟨hfits, rfl⟩ := CanonicalRecord.write_of_read hread
      exact ⟨hfits, rfl⟩
    · cases hvalue

/-- A value that is decoded has its stored form at the front of the bytes. -/
theorem decode_ok [CanonicalRecord α] {bytes : Bytes} {a : α} (h : decode bytes = .ok a) :
    fits a = true ∧ write a <+: bytes := by
  unfold decode at h
  split at h
  · next found rest hread =>
    cases h
    obtain ⟨hfits, rfl⟩ := CanonicalRecord.write_of_read hread
    exact ⟨hfits, List.prefix_append _ _⟩
  · cases h

end Record

end BridgeKernel
