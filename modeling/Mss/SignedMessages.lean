import Mss.LiveTokens
import Mss.Services.BccHeaders

/-!
# What a signature says

MSS signs one text for a request, whose parts stand apart by a letter that none but the last may
hold, so that it says one thing. A backend signs its websocket's name, nonce and timestamp with a
'-' between, which the nonce holds too. Other headers may spell the same text with a shorter nonce
and a longer timestamp. The timestamp is then no float, or a number that is not positive, unless the
backend's own is whole and what the nonce ends in makes it an exponent.

* `ReadsBack`, `IsPlainDecimal`: what is asked of the texts of timestamps.
* `call_of_signedMessage`: a text that MSS signs says one thing.
* `RefusesOthers`: other headers of the same text are refused; `MakesExponent`: the exception.
* `exists_later`: how other headers spell the text; `refused_of_spelling`: that they are refused.
* **`signed_messages`**: both.
* `nonce_read_as_timestamp`: a nonce that ends in 'e'.
-/

namespace Mss.Handshake

open Atomic Storage Prog

/-! ## What is to hold -/

/-- The text of a float is read as that float. -/
def ReadsBack (h : Host) (q : ℚ) : Prop := float (h.str (.finite q)) = .ok (.finite q)

instance (h : Host) (q : ℚ) : Decidable (ReadsBack h q) :=
  inferInstanceAs (Decidable (float _ = _))

/-- The text of a timestamp is a decimal without a sign or an exponent. -/
def IsPlainDecimal (timestamp : String) : Prop := FloatText.IsPlain timestamp.toList

instance (timestamp : String) : Decidable (IsPlainDecimal timestamp) :=
  inferInstanceAs (Decidable (FloatText.IsPlain _))

/-- **Other headers of the same name and text are refused**, whatever the time. -/
def RefusesOthers (h : Host) (name nonce timestamp : String) : Prop :=
  ∀ nonce' timestamp', (nonce', timestamp') ≠ (nonce, timestamp) →
    handshakeMessage name nonce' timestamp' = handshakeMessage name nonce timestamp →
    ∀ now ttl : ℚ, ttl < now → ∃ e, checkTimestamp h timestamp' now ttl = .error e

/-- **The nonce makes an exponent of the timestamp**: the timestamp is whole, and what follows a '-'
of the nonce is a number and the letter before an exponent, the number so read being a positive
double. -/
def MakesExponent (nonce timestamp : String) : Prop :=
  ∃ before ending q d, nonce.toList = before ++ '-' :: ending ∧
    FloatText.Spells ending timestamp.toList q ∧ toDouble q = .finite d ∧ 0 < d

/-! ## What MSS signs -/

section Signed

variable {h : Host} {c c' : SignedCall}

theorem fitsMarks_notMem {c : Char} {marks l : List Char} (h : fitsMarks marks l = true)
    (hc : (marks.all fun mark => !fitsMark mark c) = true) : c ∉ l := by
  induction marks generalizing l with
  | nil =>
    cases l with
    | nil => exact List.not_mem_nil
    | cons d l => cases h
  | cons mark marks ih =>
    cases l with
    | nil => cases h
    | cons d l =>
      rw [fitsMarks, Bool.and_eq_true] at h
      rw [List.all_cons, Bool.and_eq_true] at hc
      intro hmem
      rcases List.mem_cons.mp hmem with rfl | hrest
      · rw [h.1] at hc
        exact absurd hc.1 (by simp)
      · exact ih h.2 hc.2 hrest

theorem bar_notMem_nonce (nonce : Uuid4) : '|' ∉ nonce.1.toList :=
  fitsMarks_notMem nonce.2 (by decide)

theorem bar_notMem_of_float {text : String} {v : Number} (h : float text = .ok v) :
    '|' ∉ text.toList := by
  intro hmem
  cases hread : FloatText.readLiteral text.toList with
  | none =>
    rw [float, hread] at h
    cases h
  | some literal =>
    have hletter := FloatText.letter_of_readLiteral hread _ hmem
    revert hletter
    unfold FloatText.IsLiteralLetter FloatText.IsNumberLetter
    decide

theorem bar_notMem_isAdminHeader (isAdmin : Option Bool) :
    '|' ∉ (isAdminHeader isAdmin).toList := by
  cases isAdmin with
  | none => decide
  | some isAdmin => cases isAdmin <;> decide

theorem bar_notMem_method (method : HttpMethod) : '|' ∉ method.text.toList := by
  cases method <;> decide

theorem isAdminHeader_inj {a b : Option Bool} (h : isAdminHeader a = isAdminHeader b) : a = b := by
  rcases a with _ | _ | _ <;> rcases b with _ | _ | _ <;> first | rfl | exact absurd h (by decide)

theorem HttpMethod.text_inj {a b : HttpMethod} (h : a.text = b.text) : a = b := by
  cases a <;> cases b <;> first | rfl | exact absurd h (by decide)

theorem parts_of_cons {A : Type} {x : A} {a a' rest rest' : List A} (ha : x ∉ a) (ha' : x ∉ a')
    (heq : a ++ x :: rest = a' ++ x :: rest') : a = a' ∧ rest = rest' := by
  induction a generalizing a' with
  | nil =>
    cases a' with
    | nil => exact ⟨rfl, (List.cons.inj heq).2⟩
    | cons y a' => exact absurd (List.mem_cons.mpr (.inl (List.cons.inj heq).1)) ha'
  | cons y a ih =>
    cases a' with
    | nil => exact absurd (List.mem_cons.mpr (.inl (List.cons.inj heq).1.symm)) ha
    | cons z a' =>
      obtain ⟨rfl, hrest⟩ := List.cons.inj heq
      obtain ⟨rfl, hsame⟩ := ih (List.not_mem_of_not_mem_cons ha)
        (List.not_mem_of_not_mem_cons ha') hrest
      exact ⟨rfl, hsame⟩

theorem parts_of_bar {a a' rest rest' : String} (ha : '|' ∉ a.toList) (ha' : '|' ∉ a'.toList)
    (heq : a ++ ("|" ++ rest) = a' ++ ("|" ++ rest')) : a = a' ∧ rest = rest' := by
  have hlist := congrArg String.toList heq
  simp only [String.toList_append] at hlist
  change a.toList ++ '|' :: rest.toList = a'.toList ++ '|' :: rest'.toList at hlist
  obtain ⟨hfirst, hrest⟩ := parts_of_cons ha ha' hlist
  exact ⟨String.toList_inj.mp hfirst, String.toList_inj.mp hrest⟩

/-- **A text that MSS signs says one thing.** -/
theorem call_of_signedMessage (huser : '|' ∉ c.userId.toList) (huser' : '|' ∉ c'.userId.toList)
    (hstr : ReadsBack h c.timestamp) (hstr' : ReadsBack h c'.timestamp)
    (heq : signedMessage h c = signedMessage h c') : c = c' := by
  unfold signedMessage at heq
  simp only [String.append_assoc] at heq
  obtain ⟨huserId, heq⟩ := parts_of_bar huser huser' heq
  obtain ⟨hnonce, heq⟩ := parts_of_bar (bar_notMem_nonce _) (bar_notMem_nonce _) heq
  obtain ⟨htimestamp, heq⟩ := parts_of_bar (bar_notMem_of_float hstr) (bar_notMem_of_float hstr') heq
  obtain ⟨hadmin, heq⟩ := parts_of_bar (bar_notMem_isAdminHeader _) (bar_notMem_isAdminHeader _) heq
  obtain ⟨hmethod, hpath⟩ := parts_of_bar (bar_notMem_method _) (bar_notMem_method _) heq
  have htime : c.timestamp = c'.timestamp := by
    unfold ReadsBack at hstr hstr'
    rw [htimestamp, hstr', Except.ok.injEq, FloatText.Literal.finite.injEq] at hstr
    exact hstr.symm
  obtain ⟨method, path, userId, isAdmin, nonce, timestamp⟩ := c
  obtain ⟨method', path', userId', isAdmin', nonce', timestamp'⟩ := c'
  obtain rfl : userId = userId' := huserId
  obtain rfl : nonce = nonce' := Subtype.ext hnonce
  obtain rfl : timestamp = timestamp' := htime
  obtain rfl : isAdmin = isAdmin' := isAdminHeader_inj hadmin
  obtain rfl : method = method' := HttpMethod.text_inj hmethod
  obtain rfl : path = path' := hpath
  rfl

end Signed

/-! ## What a backend signs -/

section Spelling

variable {h : Host} {name nonce timestamp nonce' timestamp' : String}

/-- **Other headers of the same text** have a part of the nonce before the timestamp. -/
theorem exists_later (ht : IsPlainDecimal timestamp)
    (hne : (nonce', timestamp') ≠ (nonce, timestamp))
    (heq : handshakeMessage name nonce' timestamp' = handshakeMessage name nonce timestamp) :
    ∃ ending, nonce.toList = nonce'.toList ++ '-' :: ending ∧
      timestamp'.toList = ending ++ '-' :: timestamp.toList := by
  have hlist := congrArg String.toList heq
  unfold handshakeMessage at hlist
  simp only [String.toList_append, List.append_assoc] at hlist
  have hrest : nonce'.toList ++ '-' :: timestamp'.toList =
      nonce.toList ++ '-' :: timestamp.toList :=
    List.append_cancel_left (List.append_cancel_left hlist)
  have hsame : nonce'.toList = nonce.toList → timestamp'.toList = timestamp.toList → False := by
    intro hnonce htimestamp
    exact hne (Prod.ext (String.toList_inj.mp hnonce) (String.toList_inj.mp htimestamp))
  rcases List.append_eq_append_iff.mp hrest with ⟨a, hnonce, ha⟩ | ⟨a, hnonce, ha⟩
  · cases a with
    | nil =>
      rw [List.append_nil] at hnonce
      rw [List.nil_append, List.cons.injEq] at ha
      exact (hsame hnonce.symm ha.2).elim
    | cons d ending =>
      rw [List.cons_append, List.cons.injEq] at ha
      obtain ⟨rfl, htimestamp⟩ := ha
      exact ⟨ending, hnonce, htimestamp⟩
  · cases a with
    | nil =>
      rw [List.append_nil] at hnonce
      rw [List.nil_append, List.cons.injEq] at ha
      exact (hsame hnonce ha.2.symm).elim
    | cons d rest =>
      -- the timestamp would hold a '-'
      rw [List.cons_append, List.cons.injEq] at ha
      refine absurd ?_ ht.dash_notMem
      rw [ha.2]
      simp

theorem refused_of_nonpos {d now ttl : ℚ} (hd : d ≤ 0) (httl : ttl < now) :
    ∃ e, checkNonceAge h (.finite d) now ttl = .error e := by
  have hage : (Number.subFrom now (.finite d)).exceeds ttl = true :=
    decide_eq_true (show ttl < now - d by linarith)
  unfold checkNonceAge
  dsimp only
  rw [if_pos hage]
  exact ⟨_, rfl⟩

theorem refused_of_infinite (isNegative : Bool) (now ttl : ℚ) :
    ∃ e, checkNonceAge h (.infinite isNegative) now ttl = .error e := by
  cases isNegative <;> exact ⟨_, rfl⟩

theorem toDouble_nonpos {q : ℚ} (hq : q ≤ 0) {d : ℚ} (hd : toDouble q = .finite d) : d ≤ 0 := by
  unfold toDouble at hd
  dsimp only at hd
  split_ifs at hd
  cases hd
  exact Doubles.nearest_nonpos Lifespans.roundsToNearest_round hq

theorem refused_of_toDouble {q now ttl : ℚ} (hq : ∀ d, toDouble q = .finite d → d ≤ 0)
    (httl : ttl < now) : ∃ e, checkNonceAge h (toDouble q) now ttl = .error e := by
  cases hdouble : toDouble q with
  | finite d => exact refused_of_nonpos (hq d hdouble) httl
  | infinite isNegative => exact refused_of_infinite isNegative now ttl
  | nan =>
    unfold toDouble at hdouble
    dsimp only at hdouble
    split_ifs at hdouble

/-- **Other headers are refused** where the nonce makes no exponent of the timestamp. -/
theorem refused_of_spelling (ht : IsPlainDecimal timestamp) {before ending : List Char}
    (hnonce : nonce.toList = before ++ '-' :: ending)
    (htimestamp : timestamp'.toList = ending ++ '-' :: timestamp.toList)
    (hplain : ¬ MakesExponent nonce timestamp) {now ttl : ℚ} (httl : ttl < now) :
    ∃ e, checkTimestamp h timestamp' now ttl = .error e := by
  unfold checkTimestamp float
  cases hread : FloatText.readLiteral timestamp'.toList with
  | none => exact ⟨_, rfl⟩
  | some v =>
    rw [htimestamp] at hread
    rcases FloatText.readLiteral_dash ht hread with ⟨q, hq, rfl⟩ | ⟨q, hspells, rfl⟩
    · exact refused_of_toDouble (fun d => toDouble_nonpos (neg_nonpos.mpr hq)) httl
    · refine refused_of_toDouble (fun d hd => ?_) httl
      by_contra hpos
      exact hplain ⟨before, ending, q, d, hnonce, hspells, hd, not_le.mp hpos⟩

theorem checkNonceAge_self (h : Host) (d : ℚ) : checkNonceAge h (.finite d) d 0 = .ok () := by
  unfold checkNonceAge
  simp only [Number.subFrom, sub_self, Number.exceeds, Number.isNegative, lt_self_iff_false,
    decide_false]
  rfl

theorem accepted_of_makesExponent (ht : IsPlainDecimal timestamp)
    (hexponent : MakesExponent nonce timestamp) : ¬ RefusesOthers h name nonce timestamp := by
  obtain ⟨before, ending, q, d, hnonce, hspells, hd, hpos⟩ := hexponent
  intro hrefuses
  have hread := hspells.readLiteral ht
  have hother := hrefuses (String.ofList before)
    (String.ofList (ending ++ '-' :: timestamp.toList)) ?_ ?_ d 0 hpos
  · -- at the time that the text says, it is fresh
    obtain ⟨e, he⟩ := hother
    unfold checkTimestamp float at he
    rw [String.toList_ofList, hread] at he
    dsimp only at he
    rw [hd] at he
    change checkNonceAge h (.finite d) d 0 = .error e at he
    rw [checkNonceAge_self] at he
    cases he
  · intro hsame
    have hlist := congrArg String.toList (congrArg Prod.snd hsame)
    rw [String.toList_ofList] at hlist
    have hlength := congrArg List.length hlist
    simp only [List.length_append, List.length_cons] at hlength
    omega
  · refine String.toList_inj.mp ?_
    unfold handshakeMessage
    simp only [String.toList_append, String.toList_ofList, hnonce, List.append_assoc,
      List.cons_append]
    rfl

variable (h) in
/-- **What is signed says one thing**: a text that MSS signs always does, and one that a backend
signs does exactly if its nonce makes no exponent of its timestamp. -/
theorem signed_messages (c c' : SignedCall) (huser : '|' ∉ c.userId.toList)
    (huser' : '|' ∉ c'.userId.toList) (hstr : ReadsBack h c.timestamp)
    (hstr' : ReadsBack h c'.timestamp) (name nonce timestamp : String)
    (ht : IsPlainDecimal timestamp) :
    (signedMessage h c = signedMessage h c' → c = c') ∧
      (RefusesOthers h name nonce timestamp ↔ ¬ MakesExponent nonce timestamp) := by
  refine ⟨call_of_signedMessage huser huser' hstr hstr', ?_, ?_⟩
  · intro hrefuses hexponent
    exact accepted_of_makesExponent ht hexponent hrefuses
  · intro hplain nonce' timestamp' hne heq now ttl httl
    obtain ⟨ending, hnonce, htimestamp⟩ := exists_later ht hne heq
    exact refused_of_spelling ht hnonce htimestamp hplain httl

end Spelling

/-! ## A nonce that ends in 'e' -/

/-- A host that writes whole floats as their digits and ".0". -/
def textHost : Host where
  float := float
  str
    | .finite q => toString q.num ++ ".0"
    | .infinite isNegative => if isNegative then "-inf" else "inf"
    | .nan => "nan"
  getHostByName _ := .ok "127.0.0.1"
  verify signature message keyPath :=
    if signature = keyPath ++ ":" ++ message then .ok () else .error .invalidSignature

/-- A request of an admin. -/
def labCall : SignedCall where
  method := .post
  path := "/jobs|1"
  userId := "user-1"
  isAdmin := some true
  nonce := ⟨"a1b2c3d4-0000-4000-8000-12345678901e", by decide⟩
  timestamp := 1700000000

theorem signed_messages_loke :
    (signedMessage textHost labCall = signedMessage textHost labCall → labCall = labCall) ∧
      (RefusesOthers textHost "loke" "a1b2c3d4-0000-4000-8000-12345678901e" "1700000000.5" ↔
        ¬ MakesExponent "a1b2c3d4-0000-4000-8000-12345678901e" "1700000000.5") :=
  signed_messages textHost labCall labCall (by decide) (by decide) (by decide +kernel)
    (by decide +kernel) "loke" "a1b2c3d4-0000-4000-8000-12345678901e" "1700000000.5"
    (by decide +kernel)

/-- **The last part of a nonce is read as a number with the timestamp for its exponent**, and the
headers that say so are taken: the timestamp is five seconds after 1970 began, and that number is a
time of the day after. -/
theorem nonce_read_as_timestamp :
    fitsMarks uuid4Marks "a1b2c3d4-0000-4000-8000-12345678901e".toList = true ∧
      IsPlainDecimal "5" ∧
      handshakeMessage "loke" "a1b2c3d4-0000-4000-8000" "12345678901e-5" =
        handshakeMessage "loke" "a1b2c3d4-0000-4000-8000-12345678901e" "5" ∧
      checkTimestamp textHost "12345678901e-5" (1234568 / 10) 300 = .ok () ∧
      ¬ RefusesOthers textHost "loke" "a1b2c3d4-0000-4000-8000-12345678901e" "5" := by
  have haccepted : checkTimestamp textHost "12345678901e-5" (1234568 / 10) 300 = .ok () := by
    decide +kernel
  refine ⟨by decide, by decide +kernel, by decide, haccepted, ?_⟩
  intro hrefuses
  obtain ⟨e, he⟩ := hrefuses "a1b2c3d4-0000-4000-8000" "12345678901e-5" (by decide) (by decide)
    (1234568 / 10) 300 (by norm_num)
  rw [haccepted] at he
  cases he

end Mss.Handshake
