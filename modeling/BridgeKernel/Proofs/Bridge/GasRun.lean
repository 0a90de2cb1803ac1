import BridgeKernel.Proofs.Bridge.EpochRun
import BridgeKernel.Proofs.Header.Gas

/-!
# Gas limits along a run

Whatever has been called, the gas limit of every stored header is in the absolute range. So there is
room for a child of each stored header if the divisor of the settings is not above the lowest limit,
and only then: with a larger divisor a chain may begin at a header that never has a child.
-/

namespace BridgeKernel

open LightClient

namespace Bridge

variable {chain : ChainId}

/-- After every run the gas of every stored header is in range. -/
theorem inGasRange_after (module : Bytes) (faults : Nat → StoreOp → Option StoreFault)
    (requests : List BridgeRequest) (chain : ChainId) :
    ((after requests (empty module faults)).memory chain).InGasRange := by
  refine memory_induction (P := fun _ => True) (I := ChainMemory.InGasRange)
    (fun _ _ _ _ => trivial) ?_ (empty_wellFormed module faults) fun _ _ hH => ?_
  · intro request _ s t _ hstep hs
    exact hstep.inGasRange hs
  · exact nomatch ((empty_blank module faults).header _).symm.trans hH

/-- After every run with one divisor a genesis with a gas limit below it is all that is stored. -/
theorem closedBelow_after {module : Bytes} {faults : Nat → StoreOp → Option StoreFault}
    {divisor : UInt64} {requests : List BridgeRequest}
    (hdivisor : ∀ request ∈ requests, request.config.headerSync.gasLimitBoundDivisor = divisor)
    (chain : ChainId) :
    ((after requests (empty module faults)).memory chain).ClosedBelow divisor := by
  have hblank : ((empty module faults).state.memory chain).Blank := empty_blank module faults
  refine memory_induction (P := fun _ => True) (I := (ChainMemory.ClosedBelow · divisor))
    (fun _ _ _ _ => trivial) ?_ (empty_wellFormed module faults)
    ⟨fun _ => hblank.header, ?_, ?_⟩
  · intro request hr s t _ hstep hs
    rw [← hdivisor request hr] at hs ⊢
    exact hstep.closedBelow hs
  · intro record hrecord
    exact nomatch hblank.genesis.symm.trans hrecord
  · intro record _ hrecord
    exact nomatch hblank.genesis.symm.trans hrecord

/-- A proper header that fits is stored by the call that begins a chain with it. -/
theorem genesis_stored {config : BridgeConfig} {header : Header} {validators prior : List Address}
    (place : BeginsAt config.headerSync header validators)
    (fits : Record.fits (trustedGenesis header) = true)
    (fitsPrior : Record.fits
      (priorEpoch (genesisRecord config.headerSync header) validators prior) = true)
    (fitsCurrent : Record.fits (⟨header.number, validators⟩ : ValidatorEpoch) = true) :
    ((after [⟨config, .syncGenesis chain header prior⟩] (empty [] fun _ _ => none)).memory
      chain).header? header.hash = some (trustedGenesis header) := by
  let bridge : Bridge := empty [] fun _ _ => none
  obtain ⟨x, t, hrun⟩ : (setGenesis config.headerSync chain header prior).Succeeds bridge.state :=
    setGenesis_succeeds (fun _ _ => rfl) rfl place fits fitsPrior fitsCurrent
  have hstate : after [⟨config, .syncGenesis chain header prior⟩] bridge = t :=
    (syncGenesis_state config chain header prior bridge).trans (congrArg Prod.snd hrun)
  obtain ⟨-, listed, hplace, hbegins⟩ := setGenesis_ok hrun
  rw [hstate]
  exact (hbegins.startedBy hplace).stored

/-- A genesis with the lowest gas limit, one epoch above the bottom. -/
def scarceGenesis (config : HeaderSyncConfig) : Header :=
  { Header.blank with
    number := config.epochLength
    gasLimit := Header.minGasLimit
    extra := shortGenesis.extra }

/-- The call that begins a chain with that header. -/
def scarceRequest (config : HeaderSyncConfig) (chain : ChainId) : BridgeRequest :=
  ⟨{ BridgeConfig.standard with headerSync := config }, .syncGenesis chain (scarceGenesis config) []⟩

/-- Any accepted settings let a chain begin with it. -/
theorem scarceGenesis_stored {config : HeaderSyncConfig} (hvalid : config.validate = .ok ())
    (chain : ChainId) :
    ((after [scarceRequest config chain] (empty [] fun _ _ => none)).memory chain).header?
      (scarceGenesis config).hash = some (trustedGenesis (scarceGenesis config)) := by
  obtain ⟨hlength, -, -⟩ := HeaderSyncConfig.validate_ok_iff.mp hvalid
  have hextra : Record.fits shortGenesis.extra = true := by decide +kernel
  have hlisted : shortGenesis.validators? = some [soleSigner] := by decide +kernel
  have hlayout : shortGenesis.ExtraLayout true := Header.checkExtra_ok_iff.mp (by decide +kernel)
  refine genesis_stored ⟨?_, UInt64.le_refl _, ?_, ?_, hlisted⟩ hextra rfl rfl
  · exact HeaderSyncConfig.isBoundary_iff.mpr ⟨hlength, Nat.dvd_refl _⟩
  · exact ⟨hlayout.room, hlayout.listed, hlayout.unlisted⟩
  · exact Header.checkGas_ok_iff.mp rfl

/-- With accepted settings every stored header has a positive bound and room for a child after every
run, exactly when the divisor is not above the lowest gas limit. Each stored header has both exactly
when its own limit is not below the divisor, and otherwise nothing passes beside it, so that under
these settings a chain whose genesis is such a header never holds another one. -/
theorem gas_bounds_positive_iff (config : HeaderSyncConfig) (hvalid : config.validate = .ok ()) :
    ((∀ module faults requests, (∀ request ∈ requests, request.config.headerSync = config) →
        ∀ chain hash H, ((after requests (empty module faults)).memory chain).header? hash = some H →
          0 < H.header.gasBound config ∧ H.header.OpenToChild config) ↔
      config.gasLimitBoundDivisor ≤ Header.minGasLimit) ∧
    ∀ module faults requests chain hash H,
      ((after requests (empty module faults)).memory chain).header? hash = some H →
        (0 < H.header.gasBound config ↔ config.gasLimitBoundDivisor ≤ H.header.gasLimit) ∧
        (H.header.OpenToChild config ↔ config.gasLimitBoundDivisor ≤ H.header.gasLimit) ∧
        (H.header.gasLimit < config.gasLimitBoundDivisor →
          (∀ child : Header, child.checkAgainstParent H.header config ≠ .ok ()) ∧
          ((∀ request ∈ requests, request.config.headerSync = config) → ∀ record,
            ((after requests (empty module faults)).memory chain).genesis? = some record →
            hash = record.hash → ∀ other,
              (((after requests (empty module faults)).memory chain).header? other).isSome = true →
              other = hash)) := by
  obtain ⟨-, hdivisor, -⟩ := HeaderSyncConfig.validate_ok_iff.mp hvalid
  have hopen {module faults requests chain hash H}
      (hH : ((after requests (empty module faults)).memory chain).header? hash = some H) :
      H.header.GasHolds ∧
        (H.header.OpenToChild config ↔ config.gasLimitBoundDivisor ≤ H.header.gasLimit) := by
    have hgas := inGasRange_after module faults requests chain hash H hH
    exact ⟨hgas, hgas.openToChild_iff.trans (Header.gasBound_pos_iff hdivisor)⟩
  refine ⟨⟨fun hall => ?_, fun hle => ?_⟩, ?_⟩
  · have hconfig : ∀ request ∈ [scarceRequest config 0], request.config.headerSync = config :=
      fun request hr => List.mem_singleton.mp hr ▸ rfl
    have hpositive := (hall _ _ _ hconfig 0 _ _ (scarceGenesis_stored hvalid 0)).1
    exact (Header.gasBound_pos_iff hdivisor).mp hpositive
  · intro module faults requests _ chain hash H hH
    obtain ⟨hgas, hiff⟩ := hopen hH
    have hroom := UInt64.le_trans hle hgas.low
    exact ⟨(Header.gasBound_pos_iff hdivisor).mpr hroom, hiff.mpr hroom⟩
  · intro module faults requests chain hash H hH
    refine ⟨Header.gasBound_pos_iff hdivisor, (hopen hH).2, fun hclosed => ⟨?_, ?_⟩⟩
    · intro child hpassed
      have hroom := (Header.gasBound_pos_iff hdivisor).mp (Header.gasBound_pos_of_check hpassed)
      exact UInt64.not_le.mpr hclosed hroom
    · rintro hconfig record hrecord rfl other hother
      obtain ⟨O, hO⟩ := Option.isSome_iff_exists.mp hother
      have hsame : ∀ request ∈ requests, request.config.headerSync.gasLimitBoundDivisor =
          config.gasLimitBoundDivisor := fun request hr => by rw [hconfig request hr]
      exact (closedBelow_after hsame chain).alone record H hrecord hH hclosed other O hO

/-- The second header of the short chain has room for a child. -/
theorem short_child_open :
    HeaderSyncConfig.trial.validate = .ok () ∧ 0 < shortTrusted.header.gasBound .trial ∧
      shortTrusted.header.OpenToChild .trial := by
  have hvalid : HeaderSyncConfig.trial.validate = .ok () := rfl
  obtain ⟨-, hrest⟩ := Prod.mk.inj shortMemory_eq
  obtain ⟨-, hstored⟩ := Prod.mk.inj hrest
  have hconfig : ∀ request ∈ shortRequests, request.config.headerSync = .trial := by
    simp [shortRequests, BridgeConfig.trial]
  have hall := (gas_bounds_positive_iff .trial hvalid).1.mpr (by decide)
  exact ⟨hvalid, hall _ _ _ hconfig 2 _ _ hstored⟩

/-- Settings with a divisor above the lowest gas limit. -/
def coarseConfig : HeaderSyncConfig := { HeaderSyncConfig.standard with gasLimitBoundDivisor := 5001 }

/-- These settings are accepted, and a chain begun under them with the lowest gas limit has a bound of
zero at its genesis, beside which no header passes. -/
theorem coarse_divisor_closes :
    coarseConfig.validate = .ok () ∧
      ((after [scarceRequest coarseConfig 2] (empty [] fun _ _ => none)).memory 2).header?
        (scarceGenesis coarseConfig).hash = some (trustedGenesis (scarceGenesis coarseConfig)) ∧
      (scarceGenesis coarseConfig).gasBound coarseConfig = 0 ∧
      ∀ child : Header,
        child.checkAgainstParent (scarceGenesis coarseConfig) coarseConfig ≠ .ok () := by
  have hvalid : coarseConfig.validate = .ok () := rfl
  have hzero : (scarceGenesis coarseConfig).gasBound coarseConfig = 0 := by decide
  refine ⟨hvalid, scarceGenesis_stored hvalid 2, hzero, fun child hpassed => ?_⟩
  have hpositive := Header.gasBound_pos_of_check hpassed
  rw [hzero] at hpositive
  exact UInt64.lt_irrefl _ hpositive

end Bridge

end BridgeKernel
