import BridgeKernel.Proofs.Custody.Template
import BridgeKernel.Proofs.Wire.Lawful

/-!
# Registered scripts

The record of a script lists its keys with their digests in the order of the script, requires at
least one and at most all of the custodians, and belongs to a script of bounded length.
-/

namespace BridgeKernel

open Record

instance : LawfulRecord RedeemRecord where
  read_write r rest hf := by
    obtain ⟨hf, hcustodians⟩ := Bool.and_eq_true_iff.mp hf
    obtain ⟨hf, hkeys⟩ := Bool.and_eq_true_iff.mp hf
    obtain ⟨hkey, hscript⟩ := Bool.and_eq_true_iff.mp hf
    change (do
      let redeemKey ← read
      let redeemScript ← read
      let required ← read
      let publicKeys ← read
      let custodians ← read
      return { redeemKey, redeemScript, required, publicKeys, custodians } : Reader RedeemRecord)
      (write r.redeemKey ++ write r.redeemScript ++ write r.required ++ write r.publicKeys ++
        write r.custodians ++ rest) = _
    simp only [List.append_assoc]
    rw [bind_read_write hkey, bind_read_write hscript, bind_read_write rfl, bind_read_write hkeys,
      bind_read_write hcustodians]
    rfl

/-! ## Records of scripts -/

/-- What the record of a script says about it. -/
structure RedeemRecord.Parsed (record : RedeemRecord) : Prop where
  /-- The custodians are known by the digests of their keys. -/
  custodians : record.custodians = record.publicKeys.map Ripemd160.hash160
  /-- A signature is required. -/
  one_le : 1 ≤ record.required.toNat
  /-- No more than all sign. -/
  required_le : record.required.toNat ≤ record.publicKeys.length
  /-- The custodians are few. -/
  few : record.publicKeys.length ≤ 16
  /-- The script is short. -/
  short : record.redeemScript.length ≤ 611

namespace Redeem

/-- The record of a script stands under the script's key and says what its parts say. -/
theorem parse_ok {script : Bytes} {record : RedeemRecord} (h : parse script = .ok record) :
    record.redeemScript = script ∧ record.redeemKey = keyOf script ∧ record.Parsed := by
  obtain ⟨m, hspelled, rfl⟩ := parse_ok_iff.mp h
  have hone := m.one_le
  have hle := m.required_le
  have hfew := m.few
  have hlength := hspelled.length_le
  have hrequired : (m.record script).required.toNat = m.required := m.toNat_required script
  refine ⟨rfl, rfl, rfl, hrequired.symm ▸ hone, hrequired.symm ▸ hle, hfew, ?_⟩
  change script.length ≤ 611
  omega

end Redeem

end BridgeKernel
