import Mss.EmailClaims
import Mss.Services.Devices

/-!
# Devices online and offline

Calls that start one after the other has ended, with time passing between them. Every call that
marks a device leaves its flag as its connections and its switch say.

* `World.shouldBeOnline`, `Device.marked`, **`run_syncOnlineFlags`**: what marking does.
* `DeviceCall`, `runCalls`: the calls, and the world a run of them leaves.
* `worldAfter_upsert`, `worldAfter_connect`, …: the world each call leaves.
* `DeviceCall.marks`, **`isOnline_after_mark`**: the flag after a call that marks is what it should
  be.
-/

namespace Mss.Devices

open Atomic Storage Prog

/-! ## What marking does -/

/-- The device should be online: it is connected, and not switched off. -/
def World.shouldBeOnline (w : World) (name : String) : Bool :=
  w.isConnected name && !w.isSwitchedOff name

variable (h : Host)

/-- What marking a device changes of it, at an instant. -/
def markChanges (now : ℤ) (isOnline : Bool) : DeviceChanges where
  isOnline := some isOnline
  lastOnline := some (if isOnline then none else some (h.datetimeToZulu now))
  updatedAt := some (some (h.datetimeToZulu now))

/-- The device once marked. -/
def Device.marked (now : ℤ) (isOnline : Bool) (d : Device) : Device :=
  if isOnline ≠ d.isOnline then d.apply (markChanges h now isOnline) else d

/-- Nothing but the devices differs. -/
structure World.SameButDevices (w w' : World) : Prop where
  backend : w'.backend = w.backend
  now : w'.now = w.now
  connections : w'.connections = w.connections
  switchedOff : w'.switchedOff = w.switchedOff

variable {h} {w w' w'' : World}

theorem World.SameButDevices.refl (w : World) : w.SameButDevices w := ⟨rfl, rfl, rfl, rfl⟩

theorem World.SameButDevices.trans (h₁ : w.SameButDevices w') (h₂ : w'.SameButDevices w'') :
    w.SameButDevices w'' :=
  ⟨h₂.backend.trans h₁.backend, h₂.now.trans h₁.now, h₂.connections.trans h₁.connections,
    h₂.switchedOff.trans h₁.switchedOff⟩

theorem World.SameButDevices.shouldBeOnline (hs : w.SameButDevices w') (name : String) :
    w'.shouldBeOnline name = w.shouldBeOnline name := by
  simp only [World.shouldBeOnline, World.isConnected, World.isSwitchedOff, hs.now, hs.connections,
    hs.switchedOff]

theorem Device.marked_isOnline (now : ℤ) (isOnline : Bool) (d : Device) :
    (d.marked h now isOnline).isOnline = isOnline := by
  unfold Device.marked
  split_ifs with hne
  · rfl
  · exact (not_not.mp hne).symm

variable (h) in
theorem run_patchDevice {name : String} {d : Device} (hd : w.devices.get name = some d)
    (u : DeviceChanges) : ∃ w', (patchDevice h name u).run exec w =
      (.ok (d.apply { u with updatedAt := some (some (h.datetimeToZulu w.now)) }), w') ∧
      w.SameButDevices w' ∧ ∀ name', w'.devices.get name' = if name' = name then
        some (d.apply { u with updatedAt := some (some (h.datetimeToZulu w.now)) })
        else w.devices.get name' := by
  have hget : ∀ u name', (exec (.updateDevice name u) w).2.devices.get name' =
      if name' = name then some (d.apply u) else w.devices.get name' := by
    intro u name'
    change (w.devices.modify name (.apply u) (Device.apply_name u)).get name' = _
    rw [Table.get_modify, hd, Option.map_some]
  refine ⟨(exec (.updateDevice name
    { u with updatedAt := some (some (h.datetimeToZulu w.now)) }) w).2, ?_,
    ⟨rfl, rfl, rfl, rfl⟩, hget _⟩
  simp only [patchDevice, getCurrentTimestamp, perform_bind, call_bind, ret_bind, pure_eq,
    run_call, exec, hd, Option.map_some, run_ret]

theorem run_syncDevice {d : Device} (hd : w.devices.get d.name = some d) (isOnline : Bool) :
    ∃ w', (syncDevice h isOnline d).run exec w = (.ok (), w') ∧ w.SameButDevices w' ∧
      ∀ name, w'.devices.get name =
        if name = d.name then some (d.marked h w.now isOnline) else w.devices.get name := by
  unfold syncDevice
  by_cases hne : isOnline ≠ d.isOnline
  · rw [if_pos hne]
    have hlast : (getLastOnline h isOnline).run exec w =
        (.ok (if isOnline then none else some (h.datetimeToZulu w.now)), w) := by
      cases isOnline <;> rfl
    have hpatch := run_patchDevice h hd
      ⟨some isOnline, some (if isOnline then none else some (h.datetimeToZulu w.now)), none⟩
    rcases hpatch with ⟨w', hrun, hsame, hget⟩
    refine ⟨w', ?_, hsame, ?_⟩
    · simp only [run_bind, hlast, hrun, pure_eq, run_ret]
    · rw [Device.marked, if_pos hne]
      exact hget
  · rw [if_neg hne]
    refine ⟨w, rfl, .refl w, fun name => ?_⟩
    rw [Device.marked, if_neg hne]
    split_ifs with hname
    · rw [hname, hd]
    · rfl

theorem run_syncEach (connectedNames switchedOffNames : List String) {ds : List Device}
    (hnodup : (ds.map (·.name)).Nodup) (hds : ∀ d ∈ ds, w.devices.get d.name = some d) :
    ∃ w', (syncEach h connectedNames switchedOffNames ds).run exec w = (.ok (), w') ∧
      w.SameButDevices w' ∧ (∀ d ∈ ds, w'.devices.get d.name = some (d.marked h w.now
        (d.name ∈ connectedNames ∧ d.name ∉ switchedOffNames))) ∧
      ∀ name, name ∉ ds.map (·.name) → w'.devices.get name = w.devices.get name := by
  induction ds generalizing w with
  | nil => exact ⟨w, rfl, .refl w, fun d hd => absurd hd List.not_mem_nil, fun _ _ => rfl⟩
  | cons d ds ih =>
    rw [List.map_cons, List.nodup_cons] at hnodup
    rw [List.forall_mem_cons] at hds
    rcases run_syncDevice (h := h) hds.1 (d.name ∈ connectedNames ∧ d.name ∉ switchedOffNames)
      with ⟨w₁, hrun₁, hsame₁, hget₁⟩
    have hrest : ∀ q ∈ ds, w₁.devices.get q.name = some q := by
      intro q hq
      have hne : q.name ≠ d.name := fun heq => hnodup.1 (heq ▸ List.mem_map_of_mem hq)
      rw [hget₁, if_neg hne]
      exact hds.2 q hq
    rcases ih hnodup.2 hrest with ⟨w₂, hrun₂, hsame₂, hmarked, hkept⟩
    refine ⟨w₂, ?_, hsame₁.trans hsame₂, fun q hq => ?_, fun name hname => ?_⟩
    · simp only [syncEach, run_bind, hrun₁, hrun₂]
    · rcases List.mem_cons.mp hq with rfl | hq
      · rw [hkept _ hnodup.1, hget₁, if_pos rfl]
      · rw [hmarked q hq, hsame₁.now]
    · rw [List.map_cons, List.mem_cons, not_or] at hname
      rw [hkept name hname.2, hget₁, if_neg hname.1]

theorem mem_connectedNames {name : String} :
    name ∈ (exec .findConnectedNames w).1 ↔ w.isConnected name = true := by
  simp only [exec, World.isConnected, List.mem_dedup, List.mem_map, List.mem_filter,
    List.any_eq_true, Bool.and_eq_true, decide_eq_true_eq]
  constructor
  · rintro ⟨r, ⟨hr, hlive⟩, hname⟩
    exact ⟨r, hr, hname, hlive⟩
  · rintro ⟨r, hr, hname, hlive⟩
    exact ⟨r, ⟨hr, hlive⟩, hname⟩

theorem mem_switchedOffNames {name : String} :
    name ∈ (exec .findSwitchedOffNames w).1 ↔ w.isSwitchedOff name = true := by
  simp only [exec, World.isSwitchedOff, List.mem_map, Option.isSome_iff_exists,
    Table.get_eq_some]

/-- **Marking the named devices, or all**, marks each by what it should be, and nothing else. -/
theorem run_syncOnlineFlags (names : Option (List String)) (w : World) :
    ∃ w', (syncOnlineFlags h names).run exec w = (.ok (), w') ∧ w.SameButDevices w' ∧
      ∀ name, w'.devices.get name = if names.all (name ∈ ·) then
        (w.devices.get name).map fun d => d.marked h w.now (w.shouldBeOnline name)
        else w.devices.get name := by
  have hnodup : ((w.devices.rows.filter fun d => names.all (d.name ∈ ·)).map (·.name)).Nodup :=
    w.devices.nodup.sublist (List.filter_sublist.map _)
  have hds : ∀ d ∈ w.devices.rows.filter (fun d => names.all (d.name ∈ ·)),
      w.devices.get d.name = some d :=
    fun d hd => Table.mem_rows_iff.mp (List.mem_of_mem_filter hd)
  rcases run_syncEach (h := h) (exec .findConnectedNames w).1 (exec .findSwitchedOffNames w).1
    hnodup hds with ⟨w', hrun, hsame, hmarked, hkept⟩
  have hshould : ∀ name, decide (name ∈ (exec .findConnectedNames w).1 ∧
      name ∉ (exec .findSwitchedOffNames w).1) = w.shouldBeOnline name := by
    intro name
    rw [Bool.eq_iff_iff, decide_eq_true_iff, mem_connectedNames, mem_switchedOffNames,
      World.shouldBeOnline, Bool.and_eq_true, Bool.not_eq_true']
    simp
  refine ⟨w', ?_, hsame, fun name => ?_⟩
  · exact hrun
  · split_ifs with hname
    · cases hg : w.devices.get name with
      | none =>
        rw [hkept name fun hin => ?_, hg, Option.map_none]
        rcases List.mem_map.mp hin with ⟨d, hd, rfl⟩
        rw [hds d hd] at hg
        cases hg
      | some d =>
        have hdname := Table.key_of_get hg
        change d.name = name at hdname
        have hmem : d ∈ w.devices.rows.filter fun d => names.all (d.name ∈ ·) :=
          List.mem_filter.mpr ⟨(Table.get_eq_some.mp hg).1, hdname ▸ hname⟩
        rw [← hdname, hmarked d hmem, hshould, Option.map_some]
    · refine hkept name fun hin => hname ?_
      rcases List.mem_map.mp hin with ⟨d, hd, rfl⟩
      exact (List.mem_filter.mp hd).2

/-! ## The calls -/

/-- **The calls**: the services of the devices, the deletion of lapsed connections, and time
passing. The id of a call is the one generated in it. -/
inductive DeviceCall
  | upsert (payload : DeviceUpsert) (id : Id)
  | connect (deviceName : String) (ttl : ℚ) (id : Id)
  | disconnect (connectionId : Id)
  | renew (connectionIds : List Id) (ttl : ℚ)
  | sync (names : Option (List String))
  | switchOff (name : String) (date : DateTime)
  | switchOn (name : String)
  | expire
  | passTime (micros : ℕ)

variable (h) in
/-- The program of a call. -/
def DeviceCall.service : DeviceCall → Service Unit
  | .upsert payload id => do
    let _ ← upsertDevice h payload id
  | .connect deviceName ttl id => do
    let _ ← addConnection h deviceName ttl id
  | .disconnect connectionId => removeConnection h connectionId
  | .renew connectionIds ttl => keepConnectionsLive connectionIds ttl
  | .sync names => syncOnlineFlags h names
  | .switchOff name date => do
    let _ ← switchOffDevice h name date
  | .switchOn name => do
    let _ ← switchOnDevice h name
  | .expire => deleteExpiredRecords
  | .passTime micros => call (.passTime micros)

variable (h) in
/-- The world a call leaves. -/
def worldAfter (w : World) (call : DeviceCall) : World := ((call.service h).run exec w).2

variable (h) in
/-- The world a run of calls leaves. -/
def runCalls (w : World) (calls : List DeviceCall) : World := calls.foldl (worldAfter h) w

/-! ## What each call leaves -/

variable (h) in
/-- The world that marking leaves. -/
def worldSynced (names : Option (List String)) (w : World) : World :=
  ((syncOnlineFlags h names).run exec w).2

theorem sameButDevices_worldSynced (names : Option (List String)) (w : World) :
    w.SameButDevices (worldSynced h names w) := by
  rcases run_syncOnlineFlags (h := h) names w with ⟨w', hrun, hsame, -⟩
  rw [worldSynced, hrun]
  exact hsame

theorem get_worldSynced (names : Option (List String)) (w : World) (name : String) :
    (worldSynced h names w).devices.get name = if names.all (name ∈ ·) then
      (w.devices.get name).map fun d => d.marked h w.now (w.shouldBeOnline name)
      else w.devices.get name := by
  rcases run_syncOnlineFlags (h := h) names w with ⟨w', hrun, -, hget⟩
  rw [worldSynced, hrun]
  exact hget name

theorem run_syncOnlineFlags_bind {α : Type} (names : Option (List String)) (w : World)
    (k : Unit → Service α) :
    (syncOnlineFlags h names >>= k).run exec w = (k ()).run exec (worldSynced h names w) := by
  rcases run_syncOnlineFlags (h := h) names w with ⟨w', hrun, -, -⟩
  rw [run_bind, worldSynced, hrun]

theorem run_getDevice_bind (name : String) (w : World) :
    ((getDevice name >>= fun _ => Prog.ret ()).run exec w).2 = w := by
  cases hg : w.devices.get name <;> simp [getDevice, exec, hg]

theorem worldAfter_upsert (payload : DeviceUpsert) (id : Id) (w : World) :
    worldAfter h w (.upsert payload id) = worldSynced h (some [payload.name])
      (exec (.upsertDevice payload (h.datetimeToZulu w.now) id) w).2 := by
  have hrun : worldAfter h w (.upsert payload id) =
      ((syncOnlineFlags h (some [payload.name]) >>= fun _ =>
        getDevice payload.name >>= fun _ => Prog.ret ()).run exec
          (exec (.upsertDevice payload (h.datetimeToZulu w.now) id) w).2).2 := by
    simp only [worldAfter, DeviceCall.service, upsertDevice, getCurrentTimestamp, bind_assoc,
      perform_bind, call_bind, ret_bind, pure_eq, run_call, exec]
  rw [hrun, run_syncOnlineFlags_bind, run_getDevice_bind]

theorem worldAfter_switchOn (name : String) (w : World) :
    worldAfter h w (.switchOn name) =
      worldSynced h (some [name]) (exec (.deleteSwitchedOff name) w).2 := by
  have hrun : worldAfter h w (.switchOn name) = ((syncOnlineFlags h (some [name]) >>= fun _ =>
      getDevice name >>= fun _ => Prog.ret ()).run exec
        (exec (.deleteSwitchedOff name) w).2).2 := by
    simp only [worldAfter, DeviceCall.service, switchOnDevice, bind_assoc, perform_bind, call_bind,
      pure_eq, run_call, exec]
  rw [hrun, run_syncOnlineFlags_bind, run_getDevice_bind]

/-- The connection that a call adds. -/
def newConnection (w : World) (deviceName : String) (ttl : ℚ) (id : Id) : DeviceConnection :=
  ⟨id, deviceName, ⟨w.now, some 0⟩, ⟨w.now + Handshake.microsOf ttl, some 0⟩⟩

theorem worldAfter_connect (deviceName : String) (ttl : ℚ) (id : Id) (w : World) :
    worldAfter h w (.connect deviceName ttl id) =
      if (exec (.insertConnection (newConnection w deviceName ttl id)) w).1 then
        worldSynced h (some [deviceName])
          (exec (.insertConnection (newConnection w deviceName ttl id)) w).2
      else w := by
  have hfailed : (exec (.insertConnection (newConnection w deviceName ttl id)) w).1 = false →
      (exec (.insertConnection (newConnection w deviceName ttl id)) w).2 = w := by
    simp only [exec]
    split <;> simp
  have hrun : worldAfter h w (.connect deviceName ttl id) =
      (((if (exec (.insertConnection (newConnection w deviceName ttl id)) w).1 = true then do
        syncOnlineFlags h (some [deviceName])
        return id
      else throw Exc.duplicateKey : Service Id) >>= fun _ => Prog.ret ()).run exec
        (exec (.insertConnection (newConnection w deviceName ttl id)) w).2).2 := rfl
  rw [hrun]
  split_ifs with hinserted
  · rw [bind_assoc, run_syncOnlineFlags_bind]
    rfl
  · rw [throw_eq, raise_bind, run_raise]
    exact hfailed (by simpa using hinserted)

theorem worldAfter_renew (connectionIds : List Id) (ttl : ℚ) (w : World) :
    worldAfter h w (.renew connectionIds ttl) = if connectionIds ≠ [] then
      (exec (.updateConnections connectionIds
        ⟨w.now + Handshake.microsOf ttl, some 0⟩) w).2
      else w := by
  simp only [worldAfter, DeviceCall.service, keepConnectionsLive]
  split_ifs <;> rfl

theorem worldAfter_disconnect (connectionId : Id) (w : World) :
    worldAfter h w (.disconnect connectionId) = match w.findConnection connectionId with
      | some connection => worldSynced h (some [connection.deviceName])
          { w with connections := w.connections.erase connectionId }
      | none => w := by
  simp only [worldAfter, DeviceCall.service, removeConnection, perform_bind, run_call, exec]
  cases w.findConnection connectionId <;> rfl

theorem worldAfter_switchOff (name : String) (date : DateTime) (w : World) :
    (w.devices.get name = none ∧ worldAfter h w (.switchOff name date) = w) ∨
    ∃ d, w.devices.get name = some d ∧
      (exec (.upsertSwitchedOff ⟨name, date⟩) w).2.SameButDevices
        (worldAfter h w (.switchOff name date)) ∧
      ∀ name', (worldAfter h w (.switchOff name date)).devices.get name' =
        if name' = name then some (d.apply
          { isOnline := some false, lastOnline := some (some (h.isoformat date)),
            updatedAt := some (some (h.datetimeToZulu w.now)) })
        else w.devices.get name' := by
  cases hg : w.devices.get name with
  | none =>
    refine .inl ⟨rfl, ?_⟩
    simp [worldAfter, DeviceCall.service, switchOffDevice, getDevice, bind_assoc, exec, hg]
  | some d =>
    have hpatch := run_patchDevice h (w := (exec (.upsertSwitchedOff ⟨name, date⟩) w).2) hg
      ⟨some false, some (some (h.isoformat date)), none⟩
    rcases hpatch with ⟨w', hrun, hsame, hget⟩
    have hworld : worldAfter h w (.switchOff name date) = w' := by
      have hbind : worldAfter h w (.switchOff name date) =
          ((patchDevice h name ⟨some false, some (some (h.isoformat date)), none⟩ >>= fun _ =>
            Prog.ret ()).run exec (exec (.upsertSwitchedOff ⟨name, date⟩) w).2).2 := by
        simp [worldAfter, DeviceCall.service, switchOffDevice, getDevice, bind_assoc, exec, hg]
      rw [hbind, run_bind, hrun]
      rfl
    exact .inr ⟨d, rfl, hworld ▸ hsame, hworld ▸ hget⟩

/-! ## The flag is what it should be -/

/-- The devices a call marks: those it names, if it gets so far. -/
def DeviceCall.marks (w : World) (name : String) : DeviceCall → Bool
  | .upsert payload _ => payload.name = name
  | .connect deviceName _ id => deviceName = name && (w.connections.get id).isNone
  | .disconnect connectionId => (w.findConnection connectionId).any (·.deviceName = name)
  | .sync names => names.all (name ∈ ·)
  | .switchOff deviceName _ => deviceName = name
  | .switchOn deviceName => deviceName = name
  | .renew _ _ | .expire | .passTime _ => false

theorem isOnline_worldSynced {names : Option (List String)} {name : String} {d : Device}
    (hname : names.all (name ∈ ·) = true)
    (hd : (worldSynced h names w).devices.get name = some d) :
    d.isOnline = (worldSynced h names w).shouldBeOnline name := by
  rw [get_worldSynced, if_pos hname] at hd
  rcases Option.map_eq_some_iff.mp hd with ⟨d₀, -, rfl⟩
  rw [Device.marked_isOnline, (sameButDevices_worldSynced names w).shouldBeOnline]

theorem get_upsertSwitchedOff (name : String) (date : DateTime) (w : World) (name' : String) :
    (exec (.upsertSwitchedOff ⟨name, date⟩) w).2.switchedOff.get name' = if name' = name then
      some ((w.switchedOff.get name).elim ⟨name, date.stored w.backend⟩
        fun q => { q with switchedOffAt := date.stored w.backend })
      else w.switchedOff.get name' :=
  Table.get_upsert w.switchedOff name
    (fun q => { q with switchedOffAt := date.stored w.backend }) (fun _ => rfl)
    (SwitchedOffDevice.stored w.backend ⟨name, date⟩) rfl name'

theorem isSwitchedOff_upsertSwitchedOff (name : String) (date : DateTime) (w : World) :
    (exec (.upsertSwitchedOff ⟨name, date⟩) w).2.isSwitchedOff name = true := by
  rw [World.isSwitchedOff, get_upsertSwitchedOff, if_pos rfl, Option.isSome_some]

theorem insertConnection_eq_true {r : DeviceConnection} (hr : w.connections.get r.id = none) :
    (exec (.insertConnection r) w).1 = true := by
  have hid : w.connections.get (r.stored w.backend).id = none := hr
  simp [exec, Table.insert?, hid]

/-- Nothing but the connections differs. -/
structure World.SameButConnections (w w' : World) : Prop where
  now : w'.now = w.now
  devices : w'.devices = w.devices
  switchedOff : w'.switchedOff = w.switchedOff

theorem exec_insertConnection {r : DeviceConnection} (hr : (exec (.insertConnection r) w).1 = true) :
    w.SameButConnections (exec (.insertConnection r) w).2 ∧
      (exec (.insertConnection r) w).2.connections.rows =
        w.connections.rows ++ [r.stored w.backend] := by
  cases hinsert : w.connections.insert? (fun _ _ => False) (r.stored w.backend) with
  | none => simp [exec, hinsert] at hr
  | some connections =>
    simp only [exec, hinsert]
    exact ⟨⟨rfl, rfl, rfl⟩, Table.rows_insert? hinsert⟩

/-- **A call that marks a device leaves its flag as it should be.** -/
theorem isOnline_worldAfter {call : DeviceCall} {name : String} {d : Device}
    (hmarks : call.marks w name = true) (hd : (worldAfter h w call).devices.get name = some d) :
    d.isOnline = (worldAfter h w call).shouldBeOnline name := by
  cases call with
  | upsert payload id =>
    rw [worldAfter_upsert] at hd ⊢
    exact isOnline_worldSynced (by simpa [DeviceCall.marks, eq_comm] using hmarks) hd
  | connect deviceName ttl id =>
    simp only [DeviceCall.marks, Bool.and_eq_true, decide_eq_true_eq,
      Option.isNone_iff_eq_none] at hmarks
    rw [worldAfter_connect, if_pos (insertConnection_eq_true hmarks.2)] at hd ⊢
    exact isOnline_worldSynced (by simpa [eq_comm] using hmarks.1) hd
  | disconnect connectionId =>
    rw [worldAfter_disconnect] at hd ⊢
    rw [DeviceCall.marks] at hmarks
    cases hfind : w.findConnection connectionId with
    | none => simp [hfind] at hmarks
    | some connection =>
      simp only [hfind] at hd ⊢
      exact isOnline_worldSynced (by simpa [hfind, eq_comm] using hmarks) hd
  | sync names => exact isOnline_worldSynced hmarks hd
  | switchOff deviceName date =>
    have hname : deviceName = name := by simpa [DeviceCall.marks] using hmarks
    subst hname
    rcases worldAfter_switchOff (h := h) deviceName date w with ⟨hnone, hw⟩ | ⟨d₀, -, hsame, hget⟩
    · rw [hw, hnone] at hd
      cases hd
    · rw [hget, if_pos rfl] at hd
      cases hd
      rw [hsame.shouldBeOnline, World.shouldBeOnline, isSwitchedOff_upsertSwitchedOff]
      exact (Bool.and_false _).symm
  | switchOn deviceName =>
    rw [worldAfter_switchOn] at hd ⊢
    exact isOnline_worldSynced (by simpa [DeviceCall.marks, eq_comm] using hmarks) hd
  | renew connectionIds ttl => cases hmarks
  | expire => cases hmarks
  | passTime micros => cases hmarks

theorem runCalls_concat (w : World) (calls : List DeviceCall) (call : DeviceCall) :
    runCalls h w (calls ++ [call]) = worldAfter h (runCalls h w calls) call := by
  simp [runCalls]

variable (h) in
/-- **The flag follows the connections and the switch**: after each call of a run that marks a
device, the device is online exactly if it has a live connection and is not switched off. -/
theorem isOnline_after_mark (w : World) (calls : List DeviceCall) (call : DeviceCall)
    (name : String) {d : Device} (hmarks : call.marks (runCalls h w calls) name = true)
    (hd : (runCalls h w (calls ++ [call])).devices.get name = some d) :
    d.isOnline = true ↔ (runCalls h w (calls ++ [call])).isConnected name = true ∧
      (runCalls h w (calls ++ [call])).isSwitchedOff name = false := by
  rw [runCalls_concat] at hd ⊢
  rw [isOnline_worldAfter hmarks hd, World.shouldBeOnline, Bool.and_eq_true, Bool.not_eq_true']

/-! ## A device over some hours -/

/-- A host that writes seconds. -/
def labHost : Host where
  datetimeToZulu micros := Emails.labTime micros ++ "Z"
  isoformat d := Emails.labTime d.utcMicros ++ "+00:00"

/-- No devices, at one o'clock. -/
def labWorld : World := { backend := .sql, now := 1767229200000000 }

/-- The device registers itself, and says whether it is online. -/
def labUpsert (isOnline : Bool) : DeviceCall :=
  .upsert { name := "loke", isOnline } "65f0000000000000000000f1"

/-- The device connects. -/
def labConnect : DeviceCall := .connect "loke" connectionTtlSeconds "65f0000000000000000000f2"

/-- The device registers, connects and registers again; then its connection lapses. -/
def labCalls : List DeviceCall :=
  [labUpsert false, labConnect, labUpsert true, .passTime 120000000]

/-- The device at an instant, offline since one. -/
def labDevice (updatedAt lastOnline : String) : Device where
  name := "loke"
  isOnline := false
  lastOnline := some lastOnline
  id := "65f0000000000000000000f1"
  createdAt := some "2026-01-01T01:00:00Z"
  updatedAt := some updatedAt

/-- The theorem once the lapsed connection is noticed. -/
theorem isOnline_after_mark_lab :
    (false = true ↔ (runCalls labHost labWorld (labCalls ++ [.sync none])).isConnected "loke" =
        true ∧
      (runCalls labHost labWorld (labCalls ++ [.sync none])).isSwitchedOff "loke" = false) ∧
    (runCalls labHost labWorld labCalls).devices.rows.map (·.isOnline) = [true] :=
  ⟨isOnline_after_mark labHost labWorld labCalls (.sync none) "loke"
    (d := labDevice "2026-01-01T01:02:00Z" "2026-01-01T01:02:00Z") (by decide +kernel)
    (by decide +kernel), by decide +kernel⟩

end Mss.Devices
