import Mathlib.Control.Monad.Basic
import Uplink.Proofs.Registry.Origin
import Uplink.Proofs.Settings.Checks
import Uplink.Stream.Runtime

/-! What streams may ask of the runtime. With settings that pass their check a heartbeat always gets
its ticks, and a subscriber gets a channel, unless it is to hold more than any channel can: the
check knows no such limit. -/

namespace Uplink.Stream

variable {settings : StreamSettings} {f : Fault}

/-! ### Requests to the runtime -/

/-- A period between pings, where there is one, is not empty. -/
theorem startFault?_eq_none (settings : StreamSettings) : startFault? settings = none := by
  unfold startFault? StreamSettings.pingInterval?
  split
  · rfl
  · next hms =>
    have hnanos : (Duration.ofMillis settings.pingIntervalMs).nanos ≠ 0 := by
      have hnat : settings.pingIntervalMs.toNat ≠ 0 := fun hzero => hms (UInt64.toNat_inj.mp hzero)
      show settings.pingIntervalMs.toNat * 1000000 ≠ 0
      omega
    rw [Option.bind_some, ticksFault?, if_neg hnanos]

/-- A channel that is to hold something is refused if and only if it is to hold too much. -/
theorem channelFault?_eq_some_iff (h : settings.validate = .ok ()) :
    channelFault? settings.channelCapacity = some f ↔
      f = .largeChannel ∧ channelLimit < settings.channelCapacity.toNat := by
  rw [channelFault?, if_neg (StreamSettings.validate_eq_ok_iff.mp h).1]
  split
  · next hlarge => simp [hlarge, eq_comm]
  · next hlarge => simp [hlarge]

namespace Connection

variable {schedule : Schedule} {address : String} {began now : Instant} {epoch : Int}
  {c : Connection} {history : List Event} {m : Move}

/-- A stream with settings that pass their check fails only when someone subscribes to it and its
channels are to hold too much, but then it always does. -/
theorem Run.fault?_eq_some_iff (h : settings.validate = .ok ())
    (hrun : Run schedule address settings began now epoch c history) :
    c.fault? m = some f ↔ f = .largeChannel ∧ (∃ topic, m = .subscribe topic) ∧
      channelLimit < settings.channelCapacity.toNat := by
  have hsettings : c.settings = settings := hrun.2.settings_eq
  cases m with
  | subscribe topic => simp [fault?, hsettings, channelFault?_eq_some_iff h]
  | _ => simp [fault?]

end Connection

namespace Registry

variable {schedule : Schedule} {epoch : Int} {r : Registry} {history : List Event} {m : Move}
  {c : Connection}

theorem mem_of_subscribing? (h : r.subscribing? m = some c) : c ∈ r.connections := by
  unfold subscribing? at h
  split at h
  · split at h
    · split at h
      · obtain ⟨id, -, hc⟩ := Option.bind_eq_some_iff.mp h
        exact List.mem_of_getElem? hc
      · cases h
    · cases h
  · exact List.mem_of_getElem? h
  · cases h

/-- Whatever settings callers ask for, a registry fails only when someone subscribes to a stream
whose channels are to hold too much, but then it always does. -/
theorem Run.fault?_eq_some_iff (hrun : Run schedule epoch r history) :
    r.fault? m = some f ↔ f = .largeChannel ∧
      ∃ c, r.subscribing? m = some c ∧ channelLimit < c.settings.channelCapacity.toNat := by
  have hstart : (r.starting? m).bind startFault? = none :=
    Option.bind_eq_none_iff.mpr fun settings _ => startFault?_eq_none settings
  rw [fault?, hstart, Option.none_or]
  cases hc : r.subscribing? m with
  | none => simp
  | some c =>
    have hsought := hrun.sought_of_stream (mem_of_subscribing? hc)
    have hvalid := (dialProblem?_eq_none_iff.mp hsought.canDial).1
    rw [Option.bind_some, channelFault?_eq_some_iff hvalid]
    simp

end Registry

/-! ### Settings with which nothing fails -/

/-- With settings that pass their check, such as those of a file that is loaded, a heartbeat starts,
and nothing in a run of a stream fails unless someone subscribes and channels are to hold more than
a channel can. Nor does anything else fail in a run of a registry, whatever settings are asked for.
-/
theorem fault_only_of_large_channel (hvalid : settings.validate = .ok ()) :
    startFault? settings = none ∧
    (∀ schedule address began now epoch c history,
      Connection.Run schedule address settings began now epoch c history → ∀ m f,
        c.fault? m = some f ↔ f = .largeChannel ∧ (∃ topic, m = .subscribe topic) ∧
          channelLimit < settings.channelCapacity.toNat) ∧
    (∀ schedule epoch r history, Registry.Run schedule epoch r history → ∀ m f,
      r.fault? m = some f ↔ f = .largeChannel ∧
        ∃ c, r.subscribing? m = some c ∧ channelLimit < c.settings.channelCapacity.toNat) ∧
    ∀ source proxy s, Settings.load source proxy = .ok s → s.stream.validate = .ok () := by
  refine ⟨startFault?_eq_none settings, ?_, ?_, fun source proxy s hload =>
    (Settings.isValid_of_load hload).stream⟩
  · intro schedule address began now epoch c history hrun m f
    exact hrun.fault?_eq_some_iff hvalid
  · intro schedule epoch r history hrun m f
    exact hrun.fault?_eq_some_iff

/-- With the settings of an empty file, a heartbeat starts and subscribers get their channels. -/
theorem no_fault_with_defaults : ∃ s, Settings.load (.bytes []) none = .ok s ∧
    s.stream.validate = .ok () ∧ startFault? s.stream = none ∧
    (∃ c history, Connection.Run .punctual "ws://host/" s.stream 0 0 0 c history ∧
      c.fault? (.subscribe "topic") = none) ∧
    ∃ r history, Registry.Run .punctual 0 r history ∧ (r.connections[0]?).isSome ∧
      r.fault? (.stream 0 (.subscribe "topic")) = none := by
  have hload : Settings.load (.bytes []) none = .ok {} := by decide +kernel
  have hsmall : ¬channelLimit < ({} : StreamSettings).channelCapacity.toNat := by decide
  have hvalid : ({} : Settings).stream.validate = .ok () := rfl
  obtain ⟨hstart, hstream, hregistry, hloaded⟩ := fault_only_of_large_channel hvalid
  have hopened : Connection.Run .punctual "ws://host/" ({} : Settings).stream 0 0 0 _ _ :=
    ⟨Nat.le_refl 0, .refl⟩
  refine ⟨{}, hload, hloaded _ _ _ hload, hstart, ⟨_, _, hopened, ?_⟩, ?_⟩
  · refine Option.eq_none_iff_forall_ne_some.mpr fun f hf => ?_
    exact hsmall ((hstream _ _ _ _ _ _ _ hopened _ _).mp hf).2.2
  · obtain ⟨r, history, c, hrun, hc, hsettings⟩ : ∃ r history c,
        Registry.Run .punctual 0 r history ∧ r.connections[0]? = some c ∧
          c.settings = ({} : Settings).stream :=
      ⟨_, _, _, Registry.Reaches.of_follow? (Registry.openMoves {}) .refl rfl, rfl, rfl⟩
    refine ⟨r, history, hrun, by rw [hc]; rfl, ?_⟩
    refine Option.eq_none_iff_forall_ne_some.mpr fun f hf => ?_
    obtain ⟨-, d, hd, hlarge⟩ := (hregistry _ _ _ _ hrun _ _).mp hf
    cases hc.symm.trans hd
    rw [hsettings] at hlarge
    exact hsmall hlarge

/-- A file with more messages for a channel than one can be made for. -/
def largeFile : List UInt8 :=
  Text.Utf8.encode "[stream]\nchannel_capacity = 9223372036854775807\n".toList

/-- Settings that pass every check when they are loaded end the first caller who subscribes. -/
theorem fault_with_large_channel : ∃ s, Settings.load (.bytes largeFile) none = .ok s ∧
    s.stream.validate = .ok () ∧ ∃ r history, Registry.Run .punctual 0 r history ∧
      r.fault? (.stream 0 (.subscribe "topic")) = some .largeChannel := by
  have hload : Settings.load (.bytes largeFile) none =
      .ok { stream := { channelCapacity := 9223372036854775807 } } := by decide +kernel
  refine ⟨_, hload, rfl, ?_⟩
  obtain ⟨r, history, c, hrun, hc, hsettings⟩ : ∃ r history c,
      Registry.Run .punctual 0 r history ∧ r.connections[0]? = some c ∧
        c.settings = { channelCapacity := 9223372036854775807 } :=
    ⟨_, _, _, Registry.Reaches.of_follow?
      (Registry.openMoves { channelCapacity := 9223372036854775807 }) .refl rfl, rfl, rfl⟩
  refine ⟨r, history, hrun, hrun.fault?_eq_some_iff.mpr ⟨rfl, c, hc, ?_⟩⟩
  rw [hsettings]
  decide

end Uplink.Stream
