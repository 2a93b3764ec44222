import Mathlib.Data.Fintype.Option
import Mss.OnlineFlags

/-!
# A device switched off amid other calls

One call switches a device off; any number of other calls run at the same time. A call that marks
devices decides from names it read before, so it may mark the device online after all.

* `OtherCall`, `start`: the calls, none of which else switches the device on or off.
* `Phase`, `protocol`, `follows_switchOff`, `follows_other`: what the calls do about the device.
* `exec_device`: what an operation does to it.
* `MarksUpToDate`, `SwitchKept`, **`offline_of_switchedOff`**: once all calls are done it is
  offline, if no call marks it online by names read before it was marked switched off.
  `online_though_switchedOff`: one that does.
-/

namespace Mss.Devices

open Atomic Storage Prog

variable {h : Host}

/-! ## The calls -/

/-- The call switches the device on or off. -/
def DeviceCall.switches (name : String) : DeviceCall → Bool
  | .switchOff deviceName _ => deviceName = name
  | .switchOn deviceName => deviceName = name
  | _ => false

/-- **A call that does not switch the device** on or off. -/
abbrev OtherCall (name : String) : Type := { call : DeviceCall // call.switches name = false }

variable {ι : Type}

variable (h) in
/-- The call that switches the device off, and the others, at their start. -/
def start (name : String) (date : DateTime) (others : ι → OtherCall name) (w : World) :
    Config World (Option ι) Resp Exc Unit :=
  Config.start w fun i => i.elim ((DeviceCall.switchOff name date).service h)
    fun j => (others j).1.service h

/-! ## What a call does about the device -/

/-- **How far a call has come with the device**: whether it found it stored, upserted it and marked
it switched off; the names it read that are switched off; the device as it found it to mark it;
and whether it patched it. -/
structure Phase where
  known : Bool := false
  upserted : Bool := false
  marked : Bool := false
  switchRead : Option (List String) := none
  found : Option Device := none
  patched : Bool := false

/-- The phase after an event. -/
def Phase.next (name : String) (m : Phase) : Event Resp → Phase
  | ⟨.getDevice n, device⟩ => { m with known := m.known || (n = name && Option.isSome device) }
  | ⟨.upsertDevice payload _ _, _⟩ => { m with upserted := m.upserted || payload.name = name }
  | ⟨.upsertSwitchedOff r, _⟩ => { m with marked := m.marked || r.name = name }
  | ⟨.findSwitchedOffNames, names⟩ => { m with switchRead := some names }
  | ⟨.findDevices _, devices⟩ => { m with found := List.find? (fun d => d.name = name) devices }
  | ⟨.updateDevice n _, _⟩ => { m with patched := m.patched || n = name }
  | _ => m

/-- If the call upserted the device, it has marked it since, or found no need to. -/
def Phase.IsMarked (name : String) (m : Phase) : Prop :=
  m.upserted = true → ∃ d ∈ m.found, m.patched = true ∨ d.isOnline = false ∨
    ∃ names ∈ m.switchRead, name ∉ names

/-- **The protocol of a call**, of the one that switches the device off or of another: it marks the
device online only by names without it, and offline since some instant. -/
def protocol (name : String) (isSwitch : Bool) : Protocol Resp Exc Unit Phase where
  next := Phase.next name
  assumes m
    | ⟨.findDevices names, devices⟩ =>
      (∀ d ∈ (devices : List Device), names.all (d.name ∈ ·) = true) ∧
      (m.upserted = true → names.all (name ∈ ·) = true → ∃ d ∈ (devices : List Device),
        d.name = name)
    | _ => True
  allows m
    | ⟨.upsertDevice _ _ _, _⟩ =>
      isSwitch = false ∧ m.switchRead = none ∧ m.found = none ∧ m.patched = false
    | ⟨.updateDevice n u, _⟩ => n = name → (isSwitch = true → m.known = true ∧ m.marked = true) ∧
      ∃ isOnline lastOnline, u.isOnline = some isOnline ∧ u.lastOnline = some lastOnline ∧
        (isOnline = true → isSwitch = false ∧ ∃ names ∈ m.switchRead, name ∉ names) ∧
        (isOnline = false → lastOnline ≠ none)
    | ⟨.deleteSwitchedOff n, _⟩ => n ≠ name
    | _ => True
  ends m res := if isSwitch then res = .ok () → m.patched = true else m.IsMarked name

section Follows

variable {name : String} {m : Phase}

theorem Phase.isMarked_of_not_upserted (hm : m.upserted = false) : m.IsMarked name := by
  intro hup
  rw [hm] at hup
  cases hup

theorem follows_syncEach {connectedNames switchedOffNames : List String} {ds : List Device}
    (hread : m.switchRead = some switchedOffNames)
    (hmarked : m.upserted = true → (∀ d ∈ ds, d.name = name) ∧ (m.IsMarked name ∨
      ∃ d ∈ m.found, d ∈ ds)) :
    Follows (protocol name false) m (syncEach h connectedNames switchedOffNames ds) := by
  induction ds generalizing m with
  | nil =>
    intro hup
    rcases (hmarked hup).2 with hdone | ⟨d, -, hd⟩
    · exact hdone hup
    · exact absurd hd List.not_mem_nil
  | cons d ds ih =>
    rw [syncEach, syncDevice]
    generalize hon : decide (d.name ∈ connectedNames ∧ d.name ∉ switchedOffNames) = isOnline
    have hpatch : ∀ lastOnline : Option String, (isOnline = false → lastOnline ≠ none) →
        Follows (protocol name false) m ((do
          let _ ← patchDevice h d.name
            { isOnline := some isOnline, lastOnline := some lastOnline }) >>= fun _ =>
              syncEach h connectedNames switchedOffNames ds) := by
      intro lastOnline hlast now _
      have hallow : decide (d.name = name) = true → isOnline = true →
          ∃ names ∈ m.switchRead, name ∉ names := by
        intro hname honline
        rw [← hon, decide_eq_true_eq, of_decide_eq_true hname] at honline
        exact ⟨switchedOffNames, hread, honline.2⟩
      refine ⟨trivial, fun r _ => ⟨fun hname => ?_, ?_⟩⟩
      · exact ⟨(fun hs => by cases hs), isOnline, lastOnline, rfl, rfl,
          fun honline => ⟨rfl, hallow (decide_eq_true hname) honline⟩, hlast⟩
      · have hdone : (m.next name ⟨.updateDevice d.name
            { isOnline := some isOnline, lastOnline := some lastOnline,
              updatedAt := some (some (h.datetimeToZulu now)) }, r⟩).IsMarked name := by
          intro hup
          have hpatched : (m.patched || decide (d.name = name)) = true := by
            simp [(hmarked hup).1 d List.mem_cons_self]
          rcases (hmarked hup).2 with hdone | ⟨f, hf, -⟩
          · rcases hdone hup with ⟨f, hf, -⟩
            exact ⟨f, hf, .inl hpatched⟩
          · exact ⟨f, hf, .inl hpatched⟩
        cases r with
        | none => exact hdone
        | some _ =>
          refine ih hread fun hup => ⟨fun q hq => ?_, .inl hdone⟩
          exact (hmarked hup).1 q (List.mem_cons_of_mem _ hq)
    by_cases hne : isOnline ≠ d.isOnline
    · rw [if_pos hne, Prog.bind_assoc, getLastOnline]
      cases isOnline with
      | true => exact hpatch none fun hoff => by cases hoff
      | false => exact fun now _ => ⟨trivial, hpatch _ fun _ => Option.some_ne_none _⟩
    · rw [if_neg hne]
      refine ih hread fun hup => ?_
      rcases hmarked hup with ⟨hnames, hcases⟩
      refine ⟨fun q hq => hnames q (List.mem_cons_of_mem _ hq), ?_⟩
      rcases hcases with hdone | ⟨f, hf, hmem⟩
      · exact .inl hdone
      · rcases List.mem_cons.mp hmem with rfl | hmem
        · left
          intro _
          refine ⟨f, hf, .inr ?_⟩
          cases honline : f.isOnline with
          | false => exact .inl rfl
          | true =>
            rw [honline, ne_eq, not_not] at hne
            rw [hne, decide_eq_true_eq] at hon
            exact .inr ⟨switchedOffNames, hread, hnames f List.mem_cons_self ▸ hon.2⟩
        · exact .inr ⟨f, hf, hmem⟩

theorem follows_syncOnlineFlags {names : Option (List String)}
    (hm : m.upserted = true → names = some [name]) :
    Follows (protocol name false) m (syncOnlineFlags h names) := by
  refine fun connectedNames _ => ⟨trivial, fun switchedOffNames _ => ⟨trivial, fun ds hds => ?_⟩⟩
  refine ⟨trivial, follows_syncEach (m := Phase.next name
    { m with switchRead := some switchedOffNames } ⟨.findDevices names, ds⟩) rfl fun hup => ?_⟩
  have hnames := hm hup
  subst hnames
  refine ⟨fun d hd => by simpa using hds.1 d hd, .inr ?_⟩
  have hfound : ∃ d ∈ (ds : List Device), d.name = name := hds.2 hup (by simp)
  cases hf : List.find? (fun d => d.name = name) (ds : List Device) with
  | none =>
    rcases hfound with ⟨d, hd, hname⟩
    have hne := List.find?_eq_none.mp hf d hd
    simp [hname] at hne
  | some d => exact ⟨d, hf, List.mem_of_find?_eq_some hf⟩

theorem follows_getDevice (hm : m.IsMarked name) (n : String) :
    Follows (protocol name false) m (getDevice n >>= fun _ => Prog.ret ()) := by
  intro device _
  cases device <;> exact ⟨trivial, hm⟩

theorem follows_syncOnlineFlags_bind {names : Option (List String)} {f : Unit → Service Unit}
    (hm : m.upserted = true → names = some [name])
    (hf : ∀ m : Phase, m.IsMarked name → Follows (protocol name false) m (f ())) :
    Follows (protocol name false) m (syncOnlineFlags h names >>= f) := by
  refine follows_bind ((follows_syncOnlineFlags hm).imp_ends fun m' res hends => ?_)
  cases res with
  | ok _ => exact hf m' hends
  | error _ => exact hends

/-- **The other calls follow the protocol.** -/
theorem follows_other (call : OtherCall name) :
    Follows (protocol name false) {} (call.1.service h) := by
  rcases call with ⟨call, hcall⟩
  have hstart : ∀ {m : Phase}, m.upserted = false → m.IsMarked name := Phase.isMarked_of_not_upserted
  cases call with
  | upsert payload id =>
    refine fun now _ => ⟨trivial, fun _ _ => ⟨⟨rfl, rfl, rfl, rfl⟩, ?_⟩⟩
    change Follows _ _ ((syncOnlineFlags h (some [payload.name]) >>= fun _ =>
      getDevice payload.name) >>= fun _ => Prog.ret ())
    rw [Prog.bind_assoc]
    refine follows_syncOnlineFlags_bind (fun hup => ?_) fun m hm => follows_getDevice hm _
    have hname : payload.name = name := by simpa [protocol, Phase.next] using hup
    rw [hname]
  | connect deviceName ttl id =>
    refine fun now _ => ⟨trivial, fun now' _ => ⟨trivial, fun isInserted _ => ⟨trivial, ?_⟩⟩⟩
    cases isInserted with
    | true =>
      change Follows _ _ ((syncOnlineFlags h (some [deviceName]) >>= fun _ => Prog.ret id) >>=
        fun _ => Prog.ret ())
      rw [Prog.bind_assoc]
      exact follows_syncOnlineFlags_bind (fun hup => by cases hup) fun m hm => hm
    | false => exact hstart rfl
  | disconnect connectionId =>
    refine fun connection _ => ⟨trivial, ?_⟩
    cases connection with
    | none => exact hstart rfl
    | some connection => exact follows_syncOnlineFlags fun hup => by cases hup
  | renew connectionIds ttl =>
    simp only [DeviceCall.service, keepConnectionsLive]
    split_ifs
    · exact fun now _ => ⟨trivial, fun _ _ => ⟨trivial, hstart rfl⟩⟩
    · exact hstart rfl
  | sync names => exact follows_syncOnlineFlags fun hup => by cases hup
  | switchOff deviceName date =>
    have hne : deviceName ≠ name := by simpa [DeviceCall.switches] using hcall
    intro device _
    cases device with
    | none => exact ⟨trivial, hstart rfl⟩
    | some device =>
      refine ⟨trivial, fun _ _ => ⟨trivial, fun now _ => ⟨trivial, fun r _ => ⟨?_, ?_⟩⟩⟩⟩
      · exact fun hname => absurd hname hne
      · cases r <;> exact hstart rfl
  | switchOn deviceName =>
    have hne : deviceName ≠ name := by simpa [DeviceCall.switches] using hcall
    refine fun _ _ => ⟨hne, ?_⟩
    change Follows _ _ ((syncOnlineFlags h (some [deviceName]) >>= fun _ =>
      getDevice deviceName) >>= fun _ => Prog.ret ())
    rw [Prog.bind_assoc]
    exact follows_syncOnlineFlags_bind (fun hup => by cases hup) fun m hm => follows_getDevice hm _
  | expire => exact fun now _ => ⟨trivial, fun _ _ => ⟨trivial, hstart rfl⟩⟩
  | passTime micros => exact fun _ _ => ⟨trivial, hstart rfl⟩

/-- **The call that switches the device off follows the protocol.** -/
theorem follows_switchOff (date : DateTime) :
    Follows (protocol name true) {} ((DeviceCall.switchOff name date).service h) := by
  intro device _
  cases device with
  | none => exact ⟨trivial, fun hres => by cases hres⟩
  | some device =>
    refine ⟨trivial, fun _ _ => ⟨trivial, fun now _ => ⟨trivial, fun r _ => ⟨?_, ?_⟩⟩⟩⟩
    · refine fun _ => ⟨fun _ => ⟨?_, ?_⟩, false, some (h.isoformat date), rfl, rfl,
        (fun honline => by cases honline), fun _ => Option.some_ne_none _⟩
      · simp [protocol, Phase.next]
      · simp [protocol, Phase.next]
    · cases r with
      | none => exact fun hres => by cases hres
      | some _ =>
        intro _
        simp [protocol, Phase.next]

end Follows

/-! ## What an operation does to the device -/

/-- How an operation may change the device: by an upsert, by a patch, or not at all. -/
theorem exec_device (o : Op) (w : World) (name : String) :
    (∃ payload timestamp id, o = .upsertDevice payload timestamp id ∧ payload.name = name ∧
      (exec o w).2.devices.get name = some ((w.devices.get name).elim
        (payload.created timestamp id) (.apply (payload.changes timestamp)))) ∨
    (∃ u, o = .updateDevice name u ∧
      (exec o w).2.devices.get name = (w.devices.get name).map (.apply u)) ∨
    (∀ u, o ≠ .updateDevice name u) ∧ (exec o w).2.devices.get name = w.devices.get name := by
  cases o with
  | upsertDevice payload timestamp id =>
    have hget := Table.get_upsert w.devices payload.name
      (.apply (payload.changes timestamp)) (Device.apply_name _)
      (payload.created timestamp id) rfl name
    by_cases hname : name = payload.name
    · rw [if_pos hname] at hget
      exact .inl ⟨payload, timestamp, id, rfl, hname.symm, hname ▸ hget⟩
    · rw [if_neg hname] at hget
      exact .inr (.inr ⟨(fun _ hu => by cases hu), hget⟩)
  | updateDevice n u =>
    have hget := Table.get_modify w.devices n (.apply u) (Device.apply_name u) name
    by_cases hname : name = n
    · rw [if_pos hname] at hget
      exact .inr (.inl ⟨u, by rw [hname], hname ▸ hget⟩)
    · rw [if_neg hname] at hget
      refine .inr (.inr ⟨fun _ hu => ?_, hget⟩)
      cases hu
      exact hname rfl
  | insertConnection r =>
    refine .inr (.inr ⟨(fun _ hu => by cases hu), ?_⟩)
    simp only [exec]
    split <;> rfl
  | deleteConnection id =>
    refine .inr (.inr ⟨(fun _ hu => by cases hu), ?_⟩)
    simp only [exec]
    split <;> rfl
  | _ => exact .inr (.inr ⟨(fun _ hu => by cases hu), rfl⟩)

theorem exec_stored {o : Op} {w : World} {name : String}
    (hw : (w.devices.get name).isSome = true) :
    ((exec o w).2.devices.get name).isSome = true := by
  rcases exec_device o w name with ⟨_, _, _, -, -, hget⟩ | ⟨_, -, hget⟩ | ⟨-, hget⟩
  · rw [hget, Option.isSome_some]
  · rw [hget, Option.isSome_map, hw]
  · rw [hget, hw]

theorem exec_isSwitchedOff {o : Op} {w : World} {name : String} (ho : o ≠ .deleteSwitchedOff name)
    (hw : w.isSwitchedOff name = true) : (exec o w).2.isSwitchedOff name = true := by
  cases o with
  | upsertSwitchedOff r =>
    rcases r with ⟨n, date⟩
    rw [World.isSwitchedOff, get_upsertSwitchedOff]
    split_ifs
    · rfl
    · exact hw
  | deleteSwitchedOff n =>
    have hne : ¬ name = n := by
      intro hname
      exact ho (hname ▸ rfl)
    have hget := Table.get_erase w.switchedOff n name
    rw [if_neg hne] at hget
    exact (congrArg Option.isSome hget).trans hw
  | insertConnection r =>
    simp only [exec]
    split <;> exact hw
  | deleteConnection id =>
    simp only [exec]
    split <;> exact hw
  | _ => exact hw

/-! ## The device is left offline -/

variable [DecidableEq ι] {name : String} {c c' : Config World (Option ι) Resp Exc Unit}
  {i : Option ι} {e : Event Resp}

/-- How far a call has come with the device. -/
def phaseOf (name : String) (c : Config World (Option ι) Resp Exc Unit) (i : Option ι) : Phase :=
  (c.mine i).foldl (Phase.next name) {}

/-- The event marks the device online. -/
def marksOnline (name : String) : Event Resp → Bool
  | ⟨.updateDevice n u, _⟩ => n = name && u.isOnline = some true
  | _ => false

/-- **The condition**: once the device is marked offline as switched off, a call marks it online
only by names read since it was marked switched off, which it is among. -/
def MarksUpToDate (name : String) (c : Config World (Option ι) Resp Exc Unit) (i : Option ι)
    (e : Event Resp) : Prop :=
  marksOnline name e = true → (phaseOf name c none).patched = true →
    ∀ names ∈ (phaseOf name c i).switchRead, name ∈ names

instance (name : String) (c : Config World (Option ι) Resp Exc Unit) (i : Option ι)
    (e : Event Resp) : Decidable (MarksUpToDate name c i e) :=
  inferInstanceAs (Decidable (_ → _ → ∀ names ∈ (phaseOf name c i).switchRead, name ∈ names))

section Next

variable {m : Phase} {w : World}

theorem Phase.next_stored (hresp : (exec e.1 w).1 = e.2)
    (hm : (m.next name e).known = true ∨ (m.next name e).upserted = true) :
    (m.known = true ∨ m.upserted = true) ∨
      ((exec e.1 w).2.devices.get name).isSome = true := by
  rcases e with ⟨o, r⟩
  cases o with
  | getDevice n =>
    change w.devices.get n = r at hresp
    simp only [Phase.next, Bool.or_eq_true, Bool.and_eq_true, decide_eq_true_eq] at hm
    rcases hm with (hknown | ⟨rfl, hr⟩) | hup
    · exact .inl (.inl hknown)
    · right
      rw [← hresp] at hr
      exact hr
    · exact .inl (.inr hup)
  | upsertDevice payload timestamp id =>
    simp only [Phase.next, Bool.or_eq_true, decide_eq_true_eq] at hm
    rcases hm with hknown | hup | rfl
    · exact .inl (.inl hknown)
    · exact .inl (.inr hup)
    · right
      have hget := Table.get_upsert w.devices payload.name
        (.apply (payload.changes timestamp)) (Device.apply_name _)
        (payload.created timestamp id) rfl payload.name
      rw [if_pos rfl] at hget
      exact (congrArg Option.isSome hget).trans rfl
  | _ => exact .inl hm

theorem Phase.next_marked (hm : (m.next name e).marked = true) :
    m.marked = true ∨ (exec e.1 w).2.isSwitchedOff name = true := by
  rcases e with ⟨o, r⟩
  cases o with
  | upsertSwitchedOff q =>
    simp only [Phase.next, Bool.or_eq_true, decide_eq_true_eq] at hm
    rcases q with ⟨n, date⟩
    rcases hm with hmarked | rfl
    · exact .inl hmarked
    · exact .inr (isSwitchedOff_upsertSwitchedOff n date w)
  | _ => exact .inl hm

theorem Phase.marked_next (hm : m.marked = true) : (m.next name e).marked = true := by
  rcases e with ⟨o, r⟩
  cases o with
  | upsertSwitchedOff q => simp only [Phase.next, hm, Bool.true_or]
  | _ => exact hm

theorem Phase.next_patched (hm : (m.next name e).patched = true) :
    m.patched = true ∨ ∃ u, e.1 = .updateDevice name u := by
  rcases e with ⟨o, r⟩
  cases o with
  | updateDevice n u =>
    simp only [Phase.next, Bool.or_eq_true, decide_eq_true_eq] at hm
    rcases hm with hpatched | rfl
    · exact .inl hpatched
    · exact .inr ⟨u, rfl⟩
  | _ => exact .inl hm

end Next

/-- The call upserted the device, and is still to mark it offline. -/
structure Pending (name : String) (m : Phase) : Prop where
  upserted : m.upserted = true
  unpatched : m.patched = false
  foundOnline : ∀ d ∈ m.found, d.isOnline = true
  switchRead : ∀ names ∈ m.switchRead, name ∈ names

theorem Pending.not_isMarked {m : Phase} (hp : Pending name m) : ¬ m.IsMarked name := by
  intro hm
  rcases hm hp.upserted with ⟨d, hd, hpatched | hoff | ⟨names, hnames, hnot⟩⟩
  · rw [hp.unpatched] at hpatched
    cases hpatched
  · rw [hp.foundOnline d hd] at hoff
    cases hoff
  · exact hnot (hp.switchRead names hnames)

theorem Pending.step {m : Phase} {w : World} {d : Device} (hp : Pending name m)
    (hresp : (exec e.1 w).1 = e.2) (hoff : w.isSwitchedOff name = true)
    (hd : w.devices.get name = some d) (honline : d.isOnline = true)
    (hne : ∀ u, e.1 ≠ .updateDevice name u) : Pending name (m.next name e) := by
  rcases e with ⟨o, r⟩
  cases o with
  | upsertDevice payload timestamp id =>
    refine { hp with upserted := ?_ }
    simp only [Phase.next, hp.upserted, Bool.true_or]
  | updateDevice n u =>
    refine { hp with unpatched := ?_ }
    have hname : n ≠ name := by
      intro hname
      exact hne u (hname ▸ rfl)
    simp only [Phase.next, hp.unpatched, hname, decide_false, Bool.or_false]
  | findDevices names =>
    refine { hp with foundOnline := fun q hq => ?_ }
    have hmem : q ∈ (r : List Device) := List.mem_of_find?_eq_some hq
    have hname : q.name = name := by simpa using List.find?_some hq
    change (exec (.findDevices names) w).1 = r at hresp
    rw [← hresp] at hmem
    have hget := Table.mem_rows_iff.mp (List.mem_of_mem_filter hmem)
    change w.devices.get q.name = some q at hget
    rw [hname, hd, Option.some.injEq] at hget
    exact hget ▸ honline
  | findSwitchedOffNames =>
    refine { hp with switchRead := fun names hnames => ?_ }
    cases hnames
    change (exec .findSwitchedOffNames w).1 = r at hresp
    rw [← hresp]
    exact mem_switchedOffNames.mpr hoff
  | _ => exact { hp with }

/-- **What holds in every interleaving**: what was found or upserted is stored; what was marked
switched off is so; and once it is marked offline, the device is, since some instant, unless a call
that upserted it is still to mark it. -/
structure SwitchKept (name : String) (c : Config World (Option ι) Resp Exc Unit) : Prop where
  stored : ∀ i, (phaseOf name c i).known = true ∨ (phaseOf name c i).upserted = true →
    (c.store.devices.get name).isSome = true
  marked : (phaseOf name c none).marked = true → c.store.isSwitchedOff name = true
  patched : (phaseOf name c none).patched = true → (phaseOf name c none).marked = true ∧
    ∃ d, c.store.devices.get name = some d ∧ d.lastOnline ≠ none ∧
      (d.isOnline = true → ∃ i, Pending name (phaseOf name c (some i)))

theorem phaseOf_step_self (hs : StepBy exec i e c c') :
    phaseOf name c' i = (phaseOf name c i).next name e :=
  hs.phase_self (fun _ => protocol name true) (fun _ => {})

theorem phaseOf_step_ne (hs : StepBy exec i e c c') {j : Option ι} (hj : j ≠ i) :
    phaseOf name c' j = phaseOf name c j :=
  hs.phase_ne (fun _ => protocol name true) (fun _ => {}) hj

theorem allows_updateDevice {isSwitch : Bool} {m : Phase} {u : DeviceChanges}
    {r : Resp (.updateDevice name u)}
    (hallow : (protocol name isSwitch).allows m ⟨.updateDevice name u, r⟩) (d : Device) :
    (u.isOnline = some true ∧ isSwitch = false ∧ ∃ names ∈ m.switchRead, name ∉ names) ∨
    ((d.apply u).isOnline = false ∧ (d.apply u).lastOnline ≠ none) := by
  rcases (hallow rfl).2 with ⟨isOnline, lastOnline, hon, hlast, hallow, hoff⟩
  cases isOnline with
  | true => exact .inl ⟨hon, hallow rfl⟩
  | false =>
    refine .inr ⟨?_, ?_⟩
    · rw [Device.apply, hon]
      rfl
    · rw [Device.apply, hlast]
      exact hoff rfl

theorem SwitchKept.step (hk : SwitchKept name c) (hguard : MarksUpToDate name c i e)
    (hs : StepBy exec i e c c')
    (hallow : (protocol name i.isNone).allows (phaseOf name c i) e) : SwitchKept name c' where
  stored j hj := by
    rw [hs.store]
    by_cases hji : j = i
    · subst hji
      rw [phaseOf_step_self hs] at hj
      rcases Phase.next_stored hs.resp hj with hold | hnew
      · exact exec_stored (hk.stored j hold)
      · exact hnew
    · rw [phaseOf_step_ne hs hji] at hj
      exact exec_stored (hk.stored j hj)
  marked hm := by
    have hkept : (phaseOf name c none).marked = true → c'.store.isSwitchedOff name = true := by
      intro hm
      rw [hs.store]
      refine exec_isSwitchedOff (fun ho => ?_) (hk.marked hm)
      rcases e with ⟨o, r⟩
      cases ho
      exact hallow rfl
    by_cases hi : none = i
    · subst hi
      rw [phaseOf_step_self hs] at hm
      rcases Phase.next_marked hm with hold | hnew
      · exact hkept hold
      · rw [hs.store]
        exact hnew
    · rw [phaseOf_step_ne hs hi] at hm
      exact hkept hm
  patched hp := by
    have hmarked : (phaseOf name c none).marked = true → (phaseOf name c' none).marked = true := by
      intro hm
      by_cases hi : none = i
      · subst hi
        rw [phaseOf_step_self hs]
        exact Phase.marked_next hm
      · rw [phaseOf_step_ne hs hi]
        exact hm
    have hcases : (phaseOf name c none).patched = true ∨ i = none ∧ ∃ u, e.1 = .updateDevice name u := by
      by_cases hi : none = i
      · subst hi
        rw [phaseOf_step_self hs] at hp
        exact (Phase.next_patched hp).imp id fun hu => ⟨rfl, hu⟩
      · rw [phaseOf_step_ne hs hi] at hp
        exact .inl hp
    rw [hs.store]
    rcases exec_device e.1 c.store name with ⟨payload, timestamp, id, ho, hname, hget⟩ |
      ⟨u, ho, hget⟩ | ⟨hne, hget⟩
    · -- an upsert of the device, by a call that is then to mark it
      rcases e with ⟨o, r⟩
      cases ho
      rcases hcases with hpatched | ⟨-, u, hu⟩
      · rcases hk.patched hpatched with ⟨hm, d, hd, hlast, -⟩
        rw [hd, Option.elim_some] at hget
        refine ⟨hmarked hm, _, hget, ?_, fun _ => ?_⟩
        · cases hp : payload.lastOnline <;> simp [Device.apply, DeviceUpsert.changes, hp, hlast]
        · rcases hallow with ⟨hi, hread, hfound, hunpatched⟩
          cases i with
          | none => cases hi
          | some j =>
            refine ⟨j, ?_⟩
            rw [phaseOf_step_self hs]
            refine ⟨?_, hunpatched, fun q hq => ?_, fun names hnames => ?_⟩
            · simp only [Phase.next, hname, decide_true, Bool.or_true]
            · change q ∈ (phaseOf name c (some j)).found at hq
              rw [hfound] at hq
              cases hq
            · change names ∈ (phaseOf name c (some j)).switchRead at hnames
              rw [hread] at hnames
              cases hnames
      · cases hu
    · -- a patch of the device, which marks it offline
      rcases e with ⟨o, r⟩
      cases ho
      have hdevice : (phaseOf name c none).marked = true ∧
          ∃ d, c.store.devices.get name = some d := by
        rcases hcases with hpatched | ⟨rfl, -⟩
        · rcases hk.patched hpatched with ⟨hm, d, hd, -⟩
          exact ⟨hm, d, hd⟩
        · rcases (hallow rfl).1 rfl with ⟨hknown, hm⟩
          exact ⟨hm, Option.isSome_iff_exists.mp (hk.stored none (.inl hknown))⟩
      rcases hdevice with ⟨hm, d, hd⟩
      rw [hd, Option.map_some] at hget
      refine ⟨hmarked hm, _, hget, ?_⟩
      rcases allows_updateDevice hallow d with ⟨hon, hi, names, hnames, hnot⟩ | ⟨hoff, hlast⟩
      · rcases hcases with hpatched | ⟨rfl, -⟩
        · exact absurd (hguard (by simp [marksOnline, hon]) hpatched names hnames) hnot
        · cases hi
      · refine ⟨hlast, fun honline => ?_⟩
        rw [hoff] at honline
        cases honline
    · -- the device is as it was
      rcases hcases with hpatched | ⟨-, u, hu⟩
      · rcases hk.patched hpatched with ⟨hm, d, hd, hlast, hpending⟩
        refine ⟨hmarked hm, d, hget.trans hd, hlast, fun honline => ?_⟩
        rcases hpending honline with ⟨j, hj⟩
        refine ⟨j, ?_⟩
        by_cases hji : some j = i
        · subst hji
          rw [phaseOf_step_self hs]
          exact hj.step hs.resp (hk.marked hm) hd honline hne
        · rw [phaseOf_step_ne hs hji]
          exact hj
      · exact absurd hu (hne u)

variable {date : DateTime} {others : ι → OtherCall name}

theorem SwitchKept.start (w : World) : SwitchKept name (start h name date others w) where
  stored _ hj := by rcases hj with hj | hj <;> cases hj
  marked hm := by cases hm
  patched hp := by cases hp

theorem assumes_of_switchKept (hk : SwitchKept name c) (hs : StepBy exec i e c c') :
    (protocol name i.isNone).assumes (phaseOf name c i) e := by
  rcases e with ⟨o, r⟩
  cases o with
  | findDevices names =>
    have hresp : (exec (.findDevices names) c.store).1 = r := hs.resp
    rw [← hresp]
    refine ⟨fun d hd => (List.mem_filter.mp hd).2, fun hup hname => ?_⟩
    rcases Option.isSome_iff_exists.mp (hk.stored i (.inr hup)) with ⟨d, hd⟩
    have hdname := Table.key_of_get hd
    change d.name = name at hdname
    refine ⟨d, List.mem_filter.mpr ⟨(Table.get_eq_some.mp hd).1, ?_⟩, hdname⟩
    rw [hdname]
    exact hname
  | _ => trivial

theorem switchKept_of_reach {w : World}
    (hr : Reach exec (MarksUpToDate name) (start h name date others w) c) :
    Following (fun i => protocol name i.isNone) (fun _ => {}) c ∧ SwitchKept name c := by
  refine hr.invariant _ _ (SwitchKept name) (fun i => ?_) (SwitchKept.start w) ?_ ?_
  · cases i with
    | none => exact follows_switchOff date
    | some j => exact follows_other (others j)
  · exact fun _ _ _ _ _ hk _ hs => assumes_of_switchKept hk hs
  · exact fun _ _ _ _ _ _ hk hguard hs hallow => hk.step hguard hs hallow

variable (h date others) in
/-- **A device switched off is left offline**, since some instant, by an interleaving whose marks
are up to date, once all of its calls are done. -/
theorem offline_of_switchedOff {w : World}
    (hr : Reach exec (MarksUpToDate name) (start h name date others w) c) (hdone : c.AllDone)
    (hret : (c.pool none).HasReturned) :
    ∃ d, c.store.devices.get name = some d ∧ d.isOnline = false ∧ d.lastOnline ≠ none := by
  rcases switchKept_of_reach hr with ⟨hf, hk⟩
  have hpatched : (phaseOf name c none).patched = true := by
    have hends := hf none
    cases hp : c.pool none with
    | ret a =>
      rw [hp] at hends
      exact hends rfl
    | raise err => rw [hp] at hret; exact hret.elim
    | call o k => rw [hp] at hret; exact hret.elim
  rcases hk.patched hpatched with ⟨-, d, hd, hlast, hpending⟩
  refine ⟨d, hd, ?_, hlast⟩
  by_contra honline
  rcases hpending (by simpa using honline) with ⟨j, hj⟩
  rcases hf.ends (hdone (some j)) with ⟨res, hends, -⟩
  exact hj.not_isMarked hends

/-! ## A device that is connected when it is switched off -/

/-- The device is registered and connected. -/
def labConnected : World := runCalls labHost labWorld [labUpsert false, labConnect]

/-- The device is switched off, while all devices are marked and its backend registers it again. -/
def labSwitch : Config World (Option Bool) Resp Exc Unit :=
  start labHost "loke" ⟨1767229200000000, some 0⟩ (fun isSync => if isSync then ⟨.sync none, rfl⟩
    else ⟨.upsert { name := "loke", isOnline := true } "65f0000000000000000000f3", rfl⟩)
    labConnected

/-- The device is marked switched off before the marking call reads which are, and marked offline
after; then it is registered again. -/
def switchedInTime : List (Option Bool) :=
  [none, none, some true, some true, some true, none, none, some true, some true, some true,
    some false, some false, some false, some false, some false, some false, some false, some false,
    some false]

/-- The theorem where the device is switched off in time: it is left offline. -/
theorem offline_of_switchedOff_lab :
    ∃ d, (labSwitch.schedule exec switchedInTime).store.devices.get "loke" = some d ∧
      d.isOnline = false ∧ d.lastOnline ≠ none :=
  offline_of_switchedOff labHost _ _ (reach_schedule_of_obeys (by decide +kernel))
    (by decide +kernel) (by decide +kernel)

/-- The device is registered again; then the marking call reads which devices are switched off, and
only then this one is. -/
def switchedLate : List (Option Bool) :=
  [some false, some false, some false, some false, some false, some false, some true, some true,
    none, none, none, none, some true, some true, some true, some true]

/-- **A device switched off is left online**, and since never, by a call that read before which
devices were switched off, and found this one offline. -/
theorem online_though_switchedOff :
    ∃ c, Reach exec anyStep labSwitch c ∧ c.AllDone ∧ (c.pool none).HasReturned ∧
      c.store.isSwitchedOff "loke" = true ∧
      (c.store.devices.get "loke").map (fun d => (d.isOnline, d.lastOnline)) =
        some (true, none) :=
  ⟨labSwitch.schedule exec switchedLate, reach_schedule _ _ _, by decide +kernel, by decide +kernel,
    by decide +kernel, by decide +kernel⟩

end Mss.Devices
