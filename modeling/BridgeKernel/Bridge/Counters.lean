import BridgeKernel.Bridge.Error
import BridgeKernel.Header.LightClient

/-!
# Counters

What the bridge counts about its calls, and the text in which a host hands the counts to a monitor:
families in the order of their names, each with a line of help, a line of type, and its values. A
family split by kind of claim shows only the kinds that were counted, and is left out when there are
none.
-/

namespace BridgeKernel

/-- A count for each kind of claim. -/
abbrev KindCounts := ClaimKind → Nat

namespace KindCounts

/-- The counts with one more of a kind. -/
def bump (counts : KindCounts) (kind : ClaimKind) : KindCounts := fun k =>
  if k = kind then counts k + 1 else counts k

/-- The sum over all kinds. -/
def total (counts : KindCounts) : Nat := (ClaimKind.all.map counts).foldr (· + ·) 0

/-- One more of a kind is one more in all. -/
theorem total_bump (counts : KindCounts) (kind : ClaimKind) :
    (counts.bump kind).total = counts.total + 1 := by
  cases kind <;> simp [total, bump, ClaimKind.all] <;> omega

end KindCounts

/-- What the bridge counts. -/
structure Counters where
  /-- Instructions admitted. -/
  admitted : KindCounts
  /-- Claims refused as replays. -/
  replays : KindCounts
  /-- Headers newly stored. -/
  headers : Nat
  /-- Changes of canonical chain. -/
  reorgs : Nat
  /-- Attestations counted. -/
  votes : Nat
  /-- Payments completed. -/
  finalized : Nat

namespace Counters

/-- Nothing counted yet. -/
def zero : Counters := ⟨fun _ => 0, fun _ => 0, 0, 0, 0, 0⟩

/-- The counts after a claim of a kind came to its result. -/
def afterClaim (c : Counters) (kind : ClaimKind) :
    Except BridgeError (Option Instruction) → Counters
  | .ok (some _) =>
    { c with
      admitted := c.admitted.bump kind
      votes := if kind = .relay then c.votes + 1 else c.votes }
  | .ok none => { c with votes := c.votes + 1 }
  | .error e => if e.kind = .replayRejected then { c with replays := c.replays.bump kind } else c

/-- The counts after a batch of headers. -/
def afterBatch (c : Counters) : Except BridgeError BatchOutcome → Counters
  | .ok outcome =>
    { c with
      headers := c.headers + outcome.report.accepted
      reorgs := c.reorgs + outcome.report.reorgs }
  | .error _ => c

/-- The counts after a custodian's contribution. -/
def afterSigning (c : Counters) : Except BridgeError SigningOutcome → Counters
  | .ok (.finalized ..) => { c with finalized := c.finalized + 1 }
  | _ => c

/-! ## The text for monitors -/

/-- The lines of a family: help, type, and each value under its label. -/
def family (name help : String) (values : List (String × Nat)) : String :=
  if values.isEmpty then ""
  else
    "# HELP " ++ name ++ " " ++ help ++ "\n# TYPE " ++ name ++ " counter\n" ++
      String.join (values.map fun value =>
        name ++ value.1 ++ " " ++ toString value.2 ++ "\n")

/-- The values of a family split by kind of claim. -/
def byKind (counts : KindCounts) : List (String × Nat) :=
  (ClaimKind.all.filter fun kind => counts kind != 0).map fun kind =>
    ("\x7bverifier=\"" ++ kind.label ++ "\"\x7d", counts kind)

/-- All counts as text. -/
def render (c : Counters) : String :=
  family "xc_canonical_reorgs_total" "Canonical chain reorganizations" [("", c.reorgs)] ++
  family "xc_custody_finalized_total" "BTC custody transactions finalized" [("", c.finalized)] ++
  family "xc_headers_accepted_total" "PoA headers verified and stored" [("", c.headers)] ++
  family "xc_instructions_admitted_total" "Cross-chain instructions admitted"
    (byKind c.admitted) ++
  family "xc_replays_rejected_total" "Claims rejected as replays" (byKind c.replays) ++
  family "xc_votes_recorded_total" "Relay-attested votes recorded" [("", c.votes)]

end Counters

end BridgeKernel
