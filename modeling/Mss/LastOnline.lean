import Mss.OnlineFlags

/-!
# Since when devices are offline

When a device was last online is written when its flag changes and when it is switched off, and by
a backend's payload too. It is kept only where the payload agrees with what is stored.

* `Consistent`: what holds of the stored devices after every call.
* `KeepsLastOnline`: what a call is to keep; `keepsLastOnline_of_not_upsert`: most do.
* `Agrees`, **`keepsLastOnline_iff`**: each call of a run keeps it exactly if every upsert agrees
  with what is stored. `lastOnline_overwritten`: an upsert that does not.
-/

namespace Mss.Devices

open Atomic Storage Prog

variable {h : Host} {w w' : World}

/-! ## Since when a device is offline -/

/-- **The devices that should be online are marked so**, and those online have no `last_online`. -/
structure Consistent (w : World) : Prop where
  isOnline : ∀ name d, w.devices.get name = some d → w.shouldBeOnline name = true →
    d.isOnline = true
  lastOnline : ∀ name d, w.devices.get name = some d → d.isOnline = true → d.lastOnline = none

/-- The device that a call switches off. -/
def DeviceCall.switchesOff (name : String) : DeviceCall → Bool
  | .switchOff deviceName _ => deviceName = name
  | _ => false

/-- **What a call is to keep**: a device online has no `last_online`, and one offline before and
after keeps its own, unless the call switches it off. -/
def KeepsLastOnline (call : DeviceCall) (w w' : World) : Prop :=
  (∀ name d, w'.devices.get name = some d → d.isOnline = true → d.lastOnline = none) ∧
  ∀ name d d', w.devices.get name = some d → w'.devices.get name = some d' →
    d.isOnline = false → d'.isOnline = false → call.switchesOff name = false →
      d'.lastOnline = d.lastOnline

variable (h) in
/-- **The condition**: a backend's payload agrees with what is stored. One that says a device is
online that should be carries no `last_online`; one of a device that is offline and should be says
so, with no `last_online` or the stored one. -/
def Agrees (w : World) : DeviceCall → Prop
  | .upsert payload _ =>
    (w.shouldBeOnline payload.name = true → payload.isOnline = true →
      payload.lastOnline = none) ∧
    ∀ d ∈ w.devices.get payload.name, w.shouldBeOnline payload.name = false →
      d.isOnline = false → if payload.isOnline then d.lastOnline = some (h.datetimeToZulu w.now)
        else payload.lastOnline = none ∨ payload.lastOnline = d.lastOnline
  | _ => True

instance (w : World) : (call : DeviceCall) → Decidable (Agrees h w call)
  | .upsert payload _ => inferInstanceAs (Decidable ((_ → _ → payload.lastOnline = none) ∧
      ∀ d ∈ w.devices.get payload.name, _ → _ → if payload.isOnline then _ else _))
  | .connect _ _ _ => .isTrue trivial
  | .disconnect _ => .isTrue trivial
  | .renew _ _ => .isTrue trivial
  | .sync _ => .isTrue trivial
  | .switchOff _ _ => .isTrue trivial
  | .switchOn _ => .isTrue trivial
  | .expire => .isTrue trivial
  | .passTime _ => .isTrue trivial

theorem Device.marked_of_eq {now : ℤ} {isOnline : Bool} {d : Device} (heq : isOnline = d.isOnline) :
    d.marked h now isOnline = d := if_neg (not_not.mpr heq)

theorem keeps_worldSynced {names : Option (List String)} (w₁ : World)
    (hdevices : w₁.devices = w.devices)
    (hw : ∀ name d, w.devices.get name = some d → d.isOnline = true → d.lastOnline = none)
    (call : DeviceCall) : KeepsLastOnline call w (worldSynced h names w₁) := by
  have hcases : ∀ name d, w.devices.get name = some d →
      (worldSynced h names w₁).devices.get name = some d ∨
      (worldSynced h names w₁).devices.get name =
        some (d.marked h w₁.now (w₁.shouldBeOnline name)) := by
    intro name d hd
    rw [get_worldSynced, hdevices, hd]
    split_ifs
    · exact .inr rfl
    · exact .inl rfl
  have hstored : ∀ name d', (worldSynced h names w₁).devices.get name = some d' →
      ∃ d, w.devices.get name = some d := by
    intro name d' hd'
    rw [get_worldSynced, hdevices] at hd'
    cases hg : w.devices.get name with
    | none => simp [hg] at hd'
    | some d => exact ⟨d, rfl⟩
  refine ⟨fun name d' hd' honline => ?_, fun name d d' hd hd' hoff hoff' _ => ?_⟩
  · rcases hstored name d' hd' with ⟨d, hd⟩
    rcases hcases name d hd with hsame | hmarked
    · rw [hsame] at hd'
      cases hd'
      exact hw name _ hd honline
    · rw [hmarked] at hd'
      cases hd'
      rw [Device.marked_isOnline] at honline
      by_cases heq : w₁.shouldBeOnline name = d.isOnline
      · rw [Device.marked_of_eq heq]
        exact hw name d hd (heq ▸ honline)
      · rw [Device.marked, if_pos heq, honline]
        rfl
  · rcases hcases name d hd with hsame | hmarked
    · rw [hsame] at hd'
      cases hd'
      rfl
    · rw [hmarked] at hd'
      cases hd'
      rw [Device.marked_isOnline] at hoff'
      rw [Device.marked_of_eq (hoff'.trans hoff.symm)]

theorem World.shouldBeOnline_of {name : String} (hshould : w'.shouldBeOnline name = true)
    (hconnections : ∀ r ∈ w'.connections.rows, r.deviceName = name → r.isLive w'.now = true →
      ∃ q ∈ w.connections.rows, q.deviceName = name ∧ q.isLive w.now = true)
    (hswitched : w.isSwitchedOff name = true → w'.isSwitchedOff name = true) :
    w.shouldBeOnline name = true := by
  simp only [World.shouldBeOnline, World.isConnected, Bool.and_eq_true, List.any_eq_true,
    decide_eq_true_eq, Bool.not_eq_true'] at hshould ⊢
  rcases hshould with ⟨⟨r, hr, hname, hlive⟩, hoff⟩
  refine ⟨hconnections r hr hname hlive, ?_⟩
  by_contra hon
  rw [hswitched (by simpa using hon)] at hoff
  cases hoff

theorem isOnline_of_worldSynced {names : Option (List String)} {w₁ : World}
    (hkept : ∀ name d, names.all (name ∈ ·) = false → w₁.devices.get name = some d →
      w₁.shouldBeOnline name = true → d.isOnline = true) {name : String} {d : Device}
    (hd : (worldSynced h names w₁).devices.get name = some d)
    (hshould : (worldSynced h names w₁).shouldBeOnline name = true) : d.isOnline = true := by
  by_cases hname : names.all (name ∈ ·) = true
  · rw [isOnline_worldSynced hname hd, hshould]
  · rw [(sameButDevices_worldSynced names w₁).shouldBeOnline] at hshould
    rw [get_worldSynced, if_neg hname] at hd
    exact hkept name d (by simpa using hname) hd hshould

theorem isOnline_of_worldAfter (hw : Consistent w) (call : DeviceCall) {name : String} {d : Device}
    (hd : (worldAfter h w call).devices.get name = some d)
    (hshould : (worldAfter h w call).shouldBeOnline name = true) : d.isOnline = true := by
  -- a call settles the devices it names, and keeps what decides the others
  cases call with
  | upsert payload id =>
    rw [worldAfter_upsert] at hd hshould
    refine isOnline_of_worldSynced (fun n q hn hq hs => ?_) hd hshould
    have hne : n ≠ payload.name := by simpa using hn
    refine hw.isOnline n q ?_ hs
    have hget := Table.get_upsert w.devices payload.name
      (.apply (payload.changes (h.datetimeToZulu w.now))) (Device.apply_name _)
      (payload.created (h.datetimeToZulu w.now) id) rfl n
    rw [if_neg hne] at hget
    exact hget.symm.trans hq
  | connect deviceName ttl id =>
    rw [worldAfter_connect] at hd hshould
    split_ifs at hd hshould with hinserted
    · refine isOnline_of_worldSynced (fun n q hn hq hs => ?_) hd hshould
      have hne : deviceName ≠ n := by simpa [eq_comm] using hn
      rcases exec_insertConnection hinserted with ⟨hsame, hrows⟩
      rw [hsame.devices] at hq
      refine hw.isOnline n q hq (World.shouldBeOnline_of hs (fun r hr hname hlive => ?_) ?_)
      · rw [hrows, List.mem_append, List.mem_singleton] at hr
        rw [hsame.now] at hlive
        rcases hr with hr | rfl
        · exact ⟨r, hr, hname, hlive⟩
        · exact (hne hname).elim
      · rw [World.isSwitchedOff, World.isSwitchedOff, hsame.switchedOff]
        exact fun hoff => hoff
    · exact hw.isOnline name d hd hshould
  | disconnect connectionId =>
    rw [worldAfter_disconnect] at hd hshould
    cases hfind : w.findConnection connectionId with
    | none =>
      simp only [hfind] at hd hshould
      exact hw.isOnline name d hd hshould
    | some connection =>
      simp only [hfind] at hd hshould
      refine isOnline_of_worldSynced (fun n q _ hq hs => ?_) hd hshould
      refine hw.isOnline n q hq (World.shouldBeOnline_of hs (fun r hr hname hlive => ?_) id)
      exact ⟨r, (Table.mem_eraseWhere.mp hr).1, hname, hlive⟩
  | renew connectionIds ttl =>
    rw [worldAfter_renew] at hd hshould
    split_ifs at hd hshould
    · refine hw.isOnline name d hd (World.shouldBeOnline_of hshould (fun r hr hname hlive => ?_) id)
      rcases List.mem_map.mp hr with ⟨q, hq, rfl⟩
      unfold World.renew at hname hlive
      split_ifs at hname hlive with hrenewed
      · exact ⟨q, hq, hname, hrenewed.2⟩
      · exact ⟨q, hq, hname, hlive⟩
    · exact hw.isOnline name d hd hshould
  | sync names =>
    exact isOnline_of_worldSynced (fun n q _ hq hs => hw.isOnline n q hq hs) hd hshould
  | switchOff deviceName date =>
    rcases worldAfter_switchOff (h := h) deviceName date w with ⟨-, hworld⟩ | ⟨d₀, hd₀, hsame, hget⟩
    · rw [hworld] at hd hshould
      exact hw.isOnline name d hd hshould
    · rw [hsame.shouldBeOnline] at hshould
      rw [hget] at hd
      split_ifs at hd with hname
      · rw [hname, World.shouldBeOnline, isSwitchedOff_upsertSwitchedOff, Bool.not_true,
          Bool.and_false] at hshould
        cases hshould
      · refine hw.isOnline name d hd
          (World.shouldBeOnline_of hshould (fun r hr hr' hl => ⟨r, hr, hr', hl⟩) fun hoff => ?_)
        rw [World.isSwitchedOff] at hoff ⊢
        rw [get_upsertSwitchedOff, if_neg hname]
        exact hoff
  | switchOn deviceName =>
    rw [worldAfter_switchOn] at hd hshould
    refine isOnline_of_worldSynced (fun n q hn hq hs => ?_) hd hshould
    have hne : n ≠ deviceName := by simpa using hn
    refine hw.isOnline n q hq
      (World.shouldBeOnline_of hs (fun r hr hr' hl => ⟨r, hr, hr', hl⟩) fun hoff => ?_)
    have hget := Table.get_erase w.switchedOff deviceName n
    rw [if_neg hne] at hget
    rw [World.isSwitchedOff] at hoff ⊢
    exact (congrArg Option.isSome hget).trans hoff
  | expire =>
    refine hw.isOnline name d hd (World.shouldBeOnline_of hshould (fun r hr hname hlive => ?_) id)
    exact ⟨r, (Table.mem_eraseWhere.mp hr).1, hname, hlive⟩
  | passTime micros =>
    -- a connection that is live later was live before
    refine hw.isOnline name d hd (World.shouldBeOnline_of hshould (fun r hr hname hlive => ?_) id)
    refine ⟨r, hr, hname, ?_⟩
    rw [DeviceConnection.isLive, decide_eq_true_eq] at hlive ⊢
    change w.now + micros < r.expiresAt.utcMicros at hlive
    omega

theorem keepsLastOnline_of_devices_eq (hw : Consistent w) (hdevices : w'.devices = w.devices)
    (call : DeviceCall) : KeepsLastOnline call w w' := by
  refine ⟨fun name d hd => hw.lastOnline name d (hdevices ▸ hd), fun name d d' hd hd' _ _ _ => ?_⟩
  rw [hdevices, hd] at hd'
  cases hd'
  rfl

/-- **A call that is no upsert keeps when the devices went offline.** -/
theorem keepsLastOnline_of_not_upsert (hw : Consistent w) {call : DeviceCall}
    (hcall : ∀ payload id, call ≠ .upsert payload id) :
    KeepsLastOnline call w (worldAfter h w call) := by
  cases call with
  | upsert payload id => exact (hcall payload id rfl).elim
  | connect deviceName ttl id =>
    rw [worldAfter_connect]
    split_ifs with hinserted
    · exact keeps_worldSynced _ (exec_insertConnection hinserted).1.devices hw.lastOnline _
    · exact keepsLastOnline_of_devices_eq hw rfl _
  | disconnect connectionId =>
    rw [worldAfter_disconnect]
    cases w.findConnection connectionId with
    | none => exact keepsLastOnline_of_devices_eq hw rfl _
    | some connection =>
      exact keeps_worldSynced _
        (show { w with connections := w.connections.erase connectionId }.devices = w.devices
          from rfl) hw.lastOnline _
  | renew connectionIds ttl =>
    rw [worldAfter_renew]
    split_ifs <;> exact keepsLastOnline_of_devices_eq hw rfl _
  | sync names => exact keeps_worldSynced w rfl hw.lastOnline _
  | switchOff deviceName date =>
    rcases worldAfter_switchOff (h := h) deviceName date w with ⟨-, hworld⟩ | ⟨d₀, hd₀, -, hget⟩
    · rw [hworld]
      exact keepsLastOnline_of_devices_eq hw rfl _
    · refine ⟨fun name d hd honline => ?_, fun name d d' hd hd' _ _ hswitch => ?_⟩
      · rw [hget] at hd
        split_ifs at hd
        · cases hd
          cases honline
        · exact hw.lastOnline name d hd honline
      · have hne : ¬ name = deviceName := by simpa [DeviceCall.switchesOff, eq_comm] using hswitch
        rw [hget, if_neg hne, hd] at hd'
        cases hd'
        rfl
  | switchOn deviceName =>
    rw [worldAfter_switchOn]
    exact keeps_worldSynced (exec (.deleteSwitchedOff deviceName) w).2 rfl hw.lastOnline _
  | expire => exact keepsLastOnline_of_devices_eq hw rfl _
  | passTime micros => exact keepsLastOnline_of_devices_eq hw rfl _

variable (h) in
/-- A device as an upsert leaves it before it is marked. -/
def upserted (w : World) (payload : DeviceUpsert) (id : Id) : Device :=
  (w.devices.get payload.name).elim (payload.created (h.datetimeToZulu w.now) id)
    (.apply (payload.changes (h.datetimeToZulu w.now)))

@[simp] theorem upserted_isOnline (w : World) (payload : DeviceUpsert) (id : Id) :
    (upserted h w payload id).isOnline = payload.isOnline := by
  unfold upserted
  cases w.devices.get payload.name <;> rfl

theorem upserted_lastOnline (w : World) (payload : DeviceUpsert) (id : Id) :
    (upserted h w payload id).lastOnline =
      (payload.lastOnline <|> (w.devices.get payload.name).bind (·.lastOnline)) := by
  unfold upserted
  cases w.devices.get payload.name with
  | none => cases hlast : payload.lastOnline <;> simp [DeviceUpsert.created, hlast]
  | some d =>
    cases hlast : payload.lastOnline <;> simp [Device.apply, DeviceUpsert.changes, hlast]

theorem get_worldAfter_upsert (payload : DeviceUpsert) (id : Id) (w : World) (name : String) :
    (worldAfter h w (.upsert payload id)).devices.get name = if name = payload.name then
      some ((upserted h w payload id).marked h w.now (w.shouldBeOnline name))
      else w.devices.get name := by
  have hget := Table.get_upsert w.devices payload.name
    (.apply (payload.changes (h.datetimeToZulu w.now))) (Device.apply_name _)
    (payload.created (h.datetimeToZulu w.now) id) rfl name
  rw [worldAfter_upsert, get_worldSynced]
  have hall : (some [payload.name]).all (name ∈ ·) = decide (name = payload.name) := by simp
  rw [hall]
  by_cases hname : name = payload.name
  · rw [if_pos hname] at hget ⊢
    rw [if_pos (decide_eq_true hname)]
    exact congrArg (Option.map _) hget
  · rw [if_neg hname] at hget ⊢
    rw [if_neg (by simpa using hname)]
    exact hget

theorem marked_lastOnline (now : ℤ) (isOnline : Bool) (d : Device) :
    (d.marked h now isOnline).lastOnline = if isOnline = d.isOnline then d.lastOnline
      else if isOnline then none else some (h.datetimeToZulu now) := by
  by_cases heq : isOnline = d.isOnline
  · rw [Device.marked_of_eq heq, if_pos heq]
  · rw [Device.marked, if_pos heq, if_neg heq]
    rfl

theorem keepsLastOnline_upsert_iff (hw : Consistent w) (payload : DeviceUpsert) (id : Id) :
    KeepsLastOnline (.upsert payload id) w (worldAfter h w (.upsert payload id)) ↔
      Agrees h w (.upsert payload id) := by
  have hget := get_worldAfter_upsert (h := h) payload id w
  have hself := hget payload.name
  rw [if_pos rfl] at hself
  have honline := Device.marked_isOnline (h := h) w.now (w.shouldBeOnline payload.name)
    (upserted h w payload id)
  have hlast := marked_lastOnline (h := h) w.now (w.shouldBeOnline payload.name)
    (upserted h w payload id)
  rw [upserted_isOnline, upserted_lastOnline] at hlast
  constructor
  · intro hkeeps
    refine ⟨fun hshould hpayload => ?_, fun d hd hshould hoff => ?_⟩
    · have hnone := hkeeps.1 payload.name _ hself (honline.trans hshould)
      rw [hlast, if_pos (hshould.trans hpayload.symm)] at hnone
      cases hout : payload.lastOnline with
      | none => rfl
      | some last => simp [hout] at hnone
    · have hsame := hkeeps.2 payload.name d _ hd hself hoff (honline.trans hshould) rfl
      rw [hlast, hshould, Option.mem_def.mp hd] at hsame
      cases hpayload : payload.isOnline with
      | true => simpa [hpayload, eq_comm] using hsame
      | false =>
        cases hout : payload.lastOnline with
        | none => simp
        | some last => simpa [hpayload, hout] using hsame
  · rintro ⟨hon, hoff⟩
    refine ⟨fun name d hd honl => ?_, fun name d d' hd hd' hdoff hd'off _ => ?_⟩
    · rw [hget] at hd
      split_ifs at hd with hname
      · subst hname
        cases hd
        rw [honline] at honl
        rw [hlast]
        split_ifs with heq
        · have hnone : payload.lastOnline = none := hon honl (heq ▸ honl)
          cases hg : w.devices.get payload.name with
          | none => simp [hnone]
          | some d => simp [hnone, hw.lastOnline _ d hg (hw.isOnline _ d hg honl)]
        · rfl
      · exact hw.lastOnline name d hd honl
    · rw [hget] at hd'
      split_ifs at hd' with hname
      · subst hname
        cases hd'
        rw [honline] at hd'off
        have hagrees := hoff d hd hd'off hdoff
        rw [hlast, hd'off, hd]
        cases hpayload : payload.isOnline with
        | true =>
          rw [hpayload, if_pos rfl] at hagrees
          simp [hagrees]
        | false =>
          rw [hpayload, if_neg Bool.false_ne_true] at hagrees
          rcases hagrees with hnone | hsame
          · simp [hnone]
          · cases hlastd : d.lastOnline <;> simp [hsame, hlastd]
      · rw [hd] at hd'
        cases hd'
        rfl

/-! ## Runs -/

variable (h) in
/-- Every call of the run keeps what it is to keep. -/
def EachKeeps (w : World) : List DeviceCall → Prop
  | [] => True
  | call :: calls => KeepsLastOnline call w (worldAfter h w call) ∧
      EachKeeps (worldAfter h w call) calls

variable (h) in
/-- Every upsert of the run agrees with what is stored when it starts. -/
def EachAgrees (w : World) : List DeviceCall → Prop
  | [] => True
  | call :: calls => Agrees h w call ∧ EachAgrees (worldAfter h w call) calls

instance : (calls : List DeviceCall) → (w : World) → Decidable (EachAgrees h w calls)
  | [], _ => .isTrue trivial
  | call :: calls, w =>
    have := instDecidableEachAgrees calls (worldAfter h w call)
    inferInstanceAs (Decidable (Agrees h w call ∧ EachAgrees h (worldAfter h w call) calls))

variable (h) in
/-- **Each call of a run keeps when the devices went offline exactly if each upsert agrees** with
what is stored when it starts. -/
theorem keepsLastOnline_iff (calls : List DeviceCall) {w : World} (hw : Consistent w) :
    EachKeeps h w calls ↔ EachAgrees h w calls := by
  induction calls generalizing w with
  | nil => exact Iff.rfl
  | cons call calls ih =>
    have hcall : KeepsLastOnline call w (worldAfter h w call) ↔ Agrees h w call := by
      cases call with
      | upsert payload id => exact keepsLastOnline_upsert_iff hw payload id
      | _ => exact iff_of_true (keepsLastOnline_of_not_upsert hw fun _ _ h => by cases h) trivial
    rw [EachKeeps, EachAgrees, hcall]
    refine and_congr_right fun hagrees => ih ⟨fun name d hd => ?_, ?_⟩
    · exact isOnline_of_worldAfter hw call hd
    · exact (hcall.mpr hagrees).1

theorem consistent_of_empty (hw : w.devices.rows = []) : Consistent w := by
  have hnone : ∀ name d, w.devices.get name ≠ some d := by
    intro name d hd
    have hmem := (Table.get_eq_some.mp hd).1
    rw [hw] at hmem
    exact List.not_mem_nil hmem
  exact ⟨fun name d hd => (hnone name d hd).elim, fun name d hd => (hnone name d hd).elim⟩

/-! ## A device that registers again -/

/-- The theorem over the same calls. -/
theorem keepsLastOnline_iff_lab : EachKeeps labHost labWorld (labCalls ++ [.sync none]) :=
  (keepsLastOnline_iff labHost _ (consistent_of_empty rfl)).mpr (by decide +kernel)

/-- The device registers, connected; it disconnects, and registers again, as if online. -/
def labReturn : List DeviceCall :=
  [labConnect, labUpsert true, .disconnect "65f0000000000000000000f2", .passTime 120000000,
    labUpsert true]

/-- **An upsert overwrites when the device went offline** if it says it is online: the device went
offline at one o'clock, and it reads two minutes past. -/
theorem lastOnline_overwritten :
    Consistent labWorld ∧
    (runCalls labHost labWorld (labReturn.take 4)).devices.get "loke" =
      some (labDevice "2026-01-01T01:00:00Z" "2026-01-01T01:00:00Z") ∧
    (runCalls labHost labWorld labReturn).devices.get "loke" =
      some (labDevice "2026-01-01T01:02:00Z" "2026-01-01T01:02:00Z") ∧
    ¬ EachKeeps labHost labWorld labReturn := by
  refine ⟨consistent_of_empty rfl, by decide +kernel, by decide +kernel, fun hkeeps => ?_⟩
  have hlast := hkeeps.2.2.2.2.1.2 "loke"
    (labDevice "2026-01-01T01:00:00Z" "2026-01-01T01:00:00Z")
    (labDevice "2026-01-01T01:02:00Z" "2026-01-01T01:02:00Z")
    (by decide +kernel) (by decide +kernel) rfl rfl rfl
  exact absurd hlast (by decide +kernel)

end Mss.Devices
