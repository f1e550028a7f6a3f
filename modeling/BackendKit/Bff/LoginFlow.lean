import BackendKit.Bff.Gateway
import BackendKit.Bff.PendingLogin
import BackendKit.GoStd.Base64
import BackendKit.GoStd.Float64
import BackendKit.GoStd.Sha256

/-!
# From the login to the callback

A login leaves the backend for the authorization server and comes back as a callback. Three things
tie the two ends together: the OAuth state under which the pending login is filed, the PKCE verifier
that is filed with it (`bff/crypto.go`), and a nonce in a cookie of the browser
(`bff/loginbinding.go`). The two handlers that put them together are those of the integration guide
(`docs/CLIENT-INTEGRATION.md`, section 7.1).

The model is a network of any number of browsers. A response is on its way until it is delivered, in
any order or never; a request carries the cookies that the browser had when it was made, which may be
others by the time it is served; and cookies come into a browser from elsewhere or get lost. What is
assumed of the outside is `LoginFlow.Fair`: a nonce is new when it is drawn, and no browser comes to
hold the nonce of another one.

* `LoginFlow.completedByOwner`: a login is completed by the browser that began it, once, in time and
  with its own verifier.
* `LoginFlow.login_completes`: nothing that others do keeps a browser from completing its login.
-/

open GoStd
open Function (update update_of_ne update_self)

namespace Bff

/-! ### Tokens of random bytes -/

/-- `RandomToken`, of the bytes that the random source gave. -/
def randomToken (random : List UInt8) : String := String.ofList (Base64.encodeChars random)

/-- A PKCE code pair. -/
structure PKCE where
  verifier : String
  challenge : String

/-- The S256 code challenge of a verifier (RFC 7636). -/
def s256Challenge (verifier : String) : String :=
  String.ofList (Base64.encodeChars (Sha256.sum256 verifier.toUTF8.data.toList))

/-- `NewPKCE`. -/
def newPKCE (random : List UInt8) : PKCE :=
  let v := randomToken random
  { verifier := v, challenge := s256Challenge v }

variable (random : List UInt8)

theorem toList_randomToken :
    (randomToken random).toList = Base64.encodeChars random := String.toList_ofList

/-- A token has only characters that a cookie can have. -/
theorem valid_randomToken : ∀ c ∈ (randomToken random).toList, validCookieValueChar c = true := by
  rw [toList_randomToken]
  exact Base64.forall_mem_encodeChars (by decide +kernel) random

theorem filter_randomToken :
    String.ofList ((randomToken random).toList.filter validCookieValueChar) = randomToken random := by
  rw [List.filter_eq_self.mpr (valid_randomToken random), String.ofList_toList]

theorem randomToken_ne_empty {random : List UInt8} (h : random ≠ []) : randomToken random ≠ "" := by
  intro hempty
  have hlength := congrArg (fun s : String => s.toList.length) hempty
  have hpos : 0 < random.length := List.length_pos_iff.mpr h
  simp only [toList_randomToken, Base64.length_encodeChars, String.toList_empty, List.length_nil]
    at hlength
  omega

/-! ### Cookies -/

/-- The `SameSite` attribute. -/
inductive SameSite where
  | lax
  | strict
  deriving DecidableEq, Repr

/-- The fields of an `http.Cookie` that handlers set. -/
structure SetCookie where
  name : String
  value : String
  path : String
  httpOnly : Bool
  secure : Bool
  sameSite : SameSite
  maxAge : ℤ
  deriving DecidableEq, Repr

/-- The cookies of a browser, each with the value that `(*http.Request).Cookie` finds in requests
made with it. -/
abbrev Jar := String → Option String

/-- A cookie arrives that a handler has set. `http.SetCookie` writes nothing if the name is not a
token, and drops the characters that a value cannot have. -/
def Jar.receive (j : Jar) (c : SetCookie) : Jar :=
  if c.name ≠ "" ∧ c.name.toList.all (tokenChars.contains ·) then
    update j c.name (if c.maxAge < 0 then none
      else some (String.ofList (c.value.toList.filter validCookieValueChar)))
  else j

/-- The cookie of `SetSession`. -/
def CookieConfig.setSession (c : CookieConfig) (value : String) : SetCookie :=
  { name := c.cookieName, value, path := "/", httpOnly := true, secure := c.secure,
    sameSite := .strict, maxAge := c.maxAge }

/-! ### The binding cookie -/

/-- How long a pending login is valid in the browser, unless another time is given. -/
def defaultLoginBindingTTL : ℤ := 10 * Duration.minute

/-- `LoginBinding`. -/
structure LoginBinding where
  cookie : CookieConfig
  ttl : ℤ := 0

namespace LoginBinding

variable (b : LoginBinding)

/-- The method `ttl`. -/
def ttlOrDefault : ℤ := if 0 < b.ttl then b.ttl else defaultLoginBindingTTL

/-- `int(b.ttl().Seconds())`. The whole seconds and the rest become floating point numbers before
they are added. -/
def maxAge : ℤ :=
  ⌊Float64.round (Float64.round (b.ttlOrDefault / Duration.second : ℤ) +
    Float64.round ((b.ttlOrDefault % Duration.second : ℤ) / 1000000000))⌋

/-- The cookie of `Begin`. -/
def begun (nonce : String) : SetCookie :=
  { name := b.cookie.cookieName, value := nonce, path := "/", httpOnly := true,
    secure := b.cookie.secure, sameSite := .lax, maxAge := b.maxAge }

/-- The cookie of `clear`. -/
def clear : SetCookie :=
  { name := b.cookie.cookieName, value := "", path := "/", httpOnly := true,
    secure := b.cookie.secure, sameSite := .lax, maxAge := -1 }

/-- The verdict of `Verify`, which writes the cookie of `clear` in any case. -/
def verify (r : Request) (want : String) : Bool :=
  match r.cookie b.cookie.cookieName with
  | none => false
  | some value => value ≠ "" && want ≠ "" && value = want

theorem maxAge_nonneg : 0 ≤ b.maxAge := by
  have hpos : 0 < b.ttlOrDefault := by
    unfold ttlOrDefault
    split
    · assumption
    · decide
  have hsec : (0 : ℚ) ≤ (b.ttlOrDefault / Duration.second : ℤ) := by
    exact_mod_cast Int.ediv_nonneg hpos.le (by decide)
  have hrest : (0 : ℚ) ≤ ((b.ttlOrDefault % Duration.second : ℤ) : ℚ) / 1000000000 := by
    apply div_nonneg _ (by norm_num)
    exact_mod_cast Int.emod_nonneg _ (by decide)
  apply Int.floor_nonneg.mpr
  exact Float64.round_nonneg (add_nonneg (Float64.round_nonneg hsec) (Float64.round_nonneg hrest))

theorem verify_iff (r : Request) (want : String) :
    b.verify r want = true ↔ want ≠ "" ∧ r.cookie b.cookie.cookieName = some want := by
  unfold verify
  split
  next h => simp [h]
  next value h =>
    simp only [h, Bool.and_eq_true, decide_eq_true_eq, Option.some.injEq]
    constructor
    · rintro ⟨⟨-, hwant⟩, rfl⟩
      exact ⟨hwant, rfl⟩
    · rintro ⟨hwant, rfl⟩
      exact ⟨⟨hwant, hwant⟩, rfl⟩

end LoginBinding

/-! ### The handlers -/

/-- The settings of a backend that the login goes through. -/
structure LoginFlow where
  binding : LoginBinding
  session : CookieConfig
  names_ne : session.cookieName ≠ binding.cookie.cookieName

/-- What a login draws from the random source. -/
structure LoginRandom where
  verifier : Vector UInt8 32
  state : Vector UInt8 32
  nonce : Vector UInt8 32

/-- A login that was begun: a record of what the handler made, and of when it was filed. -/
structure LoginFlow.Begun where
  browser : ℕ
  state : String
  verifier : String
  nonce : String
  started : ℤ
  deriving DecidableEq

/-- A callback that was accepted and whose code was exchanged. -/
structure LoginFlow.Completion where
  browser : ℕ
  state : String
  nonce : String
  /-- What was sent to the token endpoint. -/
  code : String
  verifier : String
  finished : ℤ
  deriving DecidableEq

/-- What the callback handler comes to. -/
inductive LoginFlow.CallbackResult where
  /-- 400: no such pending login; the binding cookie is left alone. -/
  | unknown
  /-- 400: another browser. -/
  | unbound
  /-- 502: the code was not exchanged. -/
  | unexchanged (p : PendingLogin)
  /-- A session is created, and the browser is redirected. -/
  | signedIn (p : PendingLogin) (ts : TokenSet)

namespace LoginFlow

variable (f : LoginFlow)

/-- The login of a browser, with the tokens drawn for it. -/
def login (browser : ℕ) (random : LoginRandom) (now : ℤ) : Begun where
  browser
  state := randomToken random.state.toList
  verifier := (newPKCE random.verifier.toList).verifier
  nonce := randomToken random.nonce.toList
  started := now

/-- The handler of `/bff/login`, up to the redirect: the pending login is filed, and the nonce is
on its way to the browser even if it is not. `returnTo` has gone through `SanitizeReturnTo`. -/
def serveLogin (store : MemoryPendingLoginStore) (l : Begun) (returnTo : String) (sweepNow : ℤ) :
    MemoryPendingLoginStore × SetCookie × Option PutError :=
  let put := store.put l.state { verifier := l.verifier, nonce := l.nonce, returnTo } l.started
    sweepNow
  (put.1, f.binding.begun l.nonce, put.2)

/-- The handler of `/bff/callback`. The token endpoint is what `exchange` makes of a code and a
verifier. -/
def serveCallback (store : MemoryPendingLoginStore) (r : Request) (state code : String) (now : ℤ)
    (exchange : String → String → Option TokenSet) (sessionID : String) :
    MemoryPendingLoginStore × List SetCookie × CallbackResult :=
  match store.take state now with
  | (store, none) => (store, [], .unknown)
  | (store, some p) =>
    if f.binding.verify r p.nonce then
      match exchange code p.verifier with
      | none => (store, [f.binding.clear], .unexchanged p)
      | some ts => (store, [f.binding.clear, f.session.setSession sessionID], .signedIn p ts)
    else (store, [f.binding.clear], .unbound)

/-! ### Browsers and the network -/

/-- The backend, the browsers and the responses between them. `logins` and `done` record what has
happened, the latest first. -/
structure State where
  pending : MemoryPendingLoginStore
  /-- The cookies of a browser, now and in the past, the present ones first. -/
  jars : ℕ → List Jar
  /-- The cookies in the responses to a browser that have not arrived. -/
  inFlight : ℕ → List SetCookie
  logins : List Begun
  done : List Completion

/-- What can happen. -/
inductive Event where
  | login (browser : ℕ) (random : LoginRandom) (returnTo : String) (now sweepNow : ℤ)
  | callback (browser : ℕ) (r : Request) (state code : String) (now : ℤ)
      (exchange : String → String → Option TokenSet) (sessionID : String)
  /-- The cookie at the given place among those on their way arrives. -/
  | deliver (browser : ℕ) (i : ℕ)
  /-- A cookie comes from elsewhere, expires or is removed. -/
  | change (browser : ℕ) (name : String) (value : Option String)
  | sweep (now : ℤ)

namespace State

/-- The cookies that a browser has now. -/
def current (s : State) (browser : ℕ) : Jar := (s.jars browser).headD fun _ => none

/-- The cookies of a browser change. -/
def setJar (s : State) (browser : ℕ) (j : Jar) : State :=
  { s with jars := update s.jars browser (j :: s.jars browser) }

variable (s : State)

theorem jars_setJar_self (browser : ℕ) (j : Jar) :
    (s.setJar browser j).jars browser = j :: s.jars browser := update_self ..

theorem jars_setJar_of_ne {browser browser' : ℕ} (j : Jar) (h : browser' ≠ browser) :
    (s.setJar browser j).jars browser' = s.jars browser' := update_of_ne h ..

/-- A response to a browser is on its way. -/
def respond (s : State) (browser : ℕ) (cookies : List SetCookie) : State :=
  { s with inFlight := update s.inFlight browser (s.inFlight browser ++ cookies) }

theorem inFlight_respond_self (browser : ℕ) (cookies : List SetCookie) :
    (s.respond browser cookies).inFlight browser = s.inFlight browser ++ cookies :=
  update_self ..

theorem inFlight_respond_of_ne {browser browser' : ℕ} (cookies : List SetCookie)
    (h : browser' ≠ browser) :
    (s.respond browser cookies).inFlight browser' = s.inFlight browser' := update_of_ne h ..

/-- A response to a browser is no longer on its way. -/
def arrived (s : State) (browser i : ℕ) : State :=
  { s with
    inFlight := update s.inFlight browser ((s.inFlight browser).eraseIdx i) }

theorem mem_inFlight_of_arrived {s : State} {browser browser' i : ℕ} {c : SetCookie}
    (h : c ∈ (s.arrived browser i).inFlight browser') : c ∈ s.inFlight browser' := by
  by_cases heq : browser' = browser
  · subst heq
    have hself : (s.arrived browser' i).inFlight browser' = (s.inFlight browser').eraseIdx i :=
      update_self ..
    rw [hself] at h
    exact List.mem_of_mem_eraseIdx h
  · have hother : (s.arrived browser i).inFlight browser' = s.inFlight browser' :=
      update_of_ne heq ..
    rwa [hother] at h

end State

/-- The record of an accepted callback. -/
def CallbackResult.completion (browser : ℕ) (state code : String) (now : ℤ) :
    CallbackResult → List Completion
  | .signedIn p _ => [⟨browser, state, p.nonce, code, p.verifier, now⟩]
  | _ => []

/-- The value of the binding cookie in the requests made with some cookies. -/
def bindingOf (j : Jar) : Option String := j f.binding.cookie.cookieName

/-- A request with these cookies, as far as the handlers look at them. -/
def Sends (j : Jar) (r : Request) : Prop :=
  r.cookie f.binding.cookie.cookieName = f.bindingOf j

instance (j : Jar) (r : Request) : Decidable (f.Sends j r) := inferInstanceAs (Decidable (_ = _))

/-- Take a step. A request is made with cookies that the browser has or had. -/
def step (s : State) : Event → Option State
  | .login browser random returnTo now sweepNow =>
    let l := login browser random now
    let served := f.serveLogin s.pending l returnTo sweepNow
    some { s.respond browser [served.2.1] with pending := served.1, logins := l :: s.logins }
  | .callback browser r state code now exchange sessionID =>
    if ∃ j ∈ s.jars browser, f.Sends j r then
      let served := f.serveCallback s.pending r state code now exchange sessionID
      some { s.respond browser served.2.1 with
        pending := served.1
        done := CallbackResult.completion browser state code now served.2.2 ++ s.done }
    else none
  | .deliver browser i =>
    match (s.inFlight browser)[i]? with
    | none => none
    | some c => some ((s.arrived browser i).setJar browser ((s.current browser).receive c))
  | .change browser name value =>
    some (s.setJar browser (update (s.current browser) name value))
  | .sweep now => some { s with pending := s.pending.sweep now }

/-- A callback is a request of the browser. -/
theorem step_callback {f : LoginFlow} {s s' : State} {b : ℕ} {r : Request} {state code : String}
    {now : ℤ} {exchange : String → String → Option TokenSet} {sessionID : String}
    (h : f.step s (.callback b r state code now exchange sessionID) = some s') :
    (∃ j ∈ s.jars b, f.Sends j r) ∧
      s' = { s.respond b (f.serveCallback s.pending r state code now exchange sessionID).2.1 with
        pending := (f.serveCallback s.pending r state code now exchange sessionID).1
        done := CallbackResult.completion b state code now
          (f.serveCallback s.pending r state code now exchange sessionID).2.2 ++ s.done } := by
  simp only [step] at h
  split at h
  next hr => exact ⟨hr, (Option.some.inj h).symm⟩
  · cases h

/-- What is delivered is on its way. -/
theorem step_deliver {f : LoginFlow} {s s' : State} {b i : ℕ} (h : f.step s (.deliver b i) = some s') :
    ∃ c ∈ s.inFlight b, s' = (s.arrived b i).setJar b ((s.current b).receive c) := by
  simp only [step] at h
  split at h
  · cases h
  next c hc => exact ⟨c, List.mem_of_getElem? hc, (Option.some.inj h).symm⟩

/-- A new store, and browsers without cookies. -/
def initial (ttl max : ℤ) : State := ⟨.new ttl max, fun _ => [fun _ => none], fun _ => [], [], []⟩

/-- All runs. -/
def system (ttl max : ℤ) : StepSystem State Event where
  IsInit s := s = initial ttl max
  step := f.step

/-- What is assumed of the outside. A nonce has not been drawn before, and no other browser has
guessed it; and a cookie from elsewhere does not bring the nonce of another browser. -/
def Fair (s : State) : Event → Prop
  | .login browser random _ now _ =>
    (∀ l ∈ s.logins, l.nonce ≠ (login browser random now).nonce) ∧
      ∀ browser' ≠ browser, ∀ j ∈ s.jars browser',
        f.bindingOf j ≠ some (login browser random now).nonce
  | .change browser name value => name = f.binding.cookie.cookieName →
    ∀ l ∈ s.logins, l.browser ≠ browser → value ≠ some l.nonce
  | _ => True

end LoginFlow

/-! ### What the store holds after a call -/

namespace MemoryPendingLoginStore

variable {s : MemoryPendingLoginStore}

variable {state state' : String} {p q : PendingLogin} {now sweepNow : ℤ}

/-- What is pending after a `Put` was pending before, or is what was put. -/
theorem lookup_put (h : (s.put state p now sweepNow).1.m.lookup state' = some q) :
    s.m.lookup state' = some q ∨ state' = state ∧ q = p.stamped now := by
  have hsweep : ∀ {q}, (s.sweep sweepNow).m.lookup state' = some q → s.m.lookup state' = some q := by
    intro q hq
    rw [lookup_sweep, view, Option.filter_eq_some_iff] at hq
    exact hq.1
  by_cases hne : state = ""
  · rw [put, if_pos hne] at h
    exact .inl h
  rcases s.put_cases hne p now sweepNow with ⟨heq, -⟩ | ⟨-, s', hroom, hs', heq⟩
  · rw [heq] at h
    exact .inl (hsweep h)
  · rw [heq] at h
    replace h : (s'.m.insert state (p.stamped now)).lookup state' = some q := h
    by_cases hstate : state' = state
    · rw [hstate, AList.lookup_insert, Option.some.injEq] at h
      exact .inr ⟨hstate, h.symm⟩
    · rw [AList.lookup_insert_ne hstate] at h
      rcases hs' with rfl | rfl
      · exact .inl h
      · exact .inl (hsweep h)

/-- A `Take` leaves nothing under its state, and the rest as it was. -/
theorem lookup_take (h : (s.take state now).1.m.lookup state' = some q) :
    state' ≠ state ∧ s.m.lookup state' = some q := by
  unfold take at h
  split at h
  next hnone =>
    refine ⟨?_, h⟩
    rintro rfl
    rw [hnone] at h
    cases h
  next p hp =>
    replace h : (s.m.erase state).lookup state' = some q := h
    have hne : state' ≠ state := by
      rintro rfl
      rw [AList.lookup_erase] at h
      cases h
    exact ⟨hne, by rwa [AList.lookup_erase_ne hne] at h⟩

/-- What a `Take` returns was pending and has not expired. -/
theorem lookup_of_take (h : (s.take state now).2 = some p) :
    s.m.lookup state = some p ∧ Time.sub now p.created ≤ s.ttl := by
  rw [(s.take_eq state now).1, view, Option.filter_eq_some_iff] at h
  exact ⟨h.1, by simpa [expired] using h.2⟩

/-- A login that will not have expired by `deadline` survives a sweep before. -/
theorem lookup_sweep_of_unexpired {deadline : ℤ} (hp : s.m.lookup state = some p)
    (hlive : s.expired p deadline = false) (hnow : now ≤ deadline) :
    (s.sweep now).m.lookup state = some p := by
  have hunexpired : s.expired p now = false :=
    Bool.eq_false_iff.mpr fun h => Bool.eq_false_iff.mp hlive (expired_mono h hnow)
  rw [lookup_sweep, view, hp]
  simp [hunexpired]

/-- A `Put` under another state leaves a login alone that has not expired by then. -/
theorem lookup_put_of_ne {deadline : ℤ} (hne : state' ≠ state) (hp : s.m.lookup state' = some p)
    (hlive : s.expired p deadline = false) (hsweep : sweepNow ≤ deadline) :
    (s.put state q now sweepNow).1.m.lookup state' = some p := by
  have hswept := lookup_sweep_of_unexpired hp hlive hsweep
  by_cases hempty : state = ""
  · rw [put, if_pos hempty]
    exact hp
  rcases s.put_cases hempty q now sweepNow with ⟨heq, -⟩ | ⟨-, s', hroom, hs', heq⟩
  · rw [heq]
    exact hswept
  · rw [heq]
    show (s'.m.insert state (q.stamped now)).lookup state' = some p
    rw [AList.lookup_insert_ne hne]
    rcases hs' with rfl | rfl
    · exact hp
    · exact hswept

/-- A `Put` that reports no error has filed the login. -/
theorem lookup_put_self (h : (s.put state p now sweepNow).2 = none) :
    (s.put state p now sweepNow).1.m.lookup state = some (p.stamped now) := by
  have hne : state ≠ "" := by
    intro hempty
    rw [put, if_pos hempty] at h
    cases h
  rcases s.put_cases hne p now sweepNow with ⟨heq, -⟩ | ⟨-, s', hroom, -, heq⟩
  · rw [heq] at h
    cases h
  · rw [heq]
    exact AList.lookup_insert _

/-- A `Take` of another state leaves a login alone. -/
theorem lookup_take_of_ne (hne : state' ≠ state) (now : ℤ) :
    (s.take state now).1.m.lookup state' = s.m.lookup state' := by
  unfold take
  split
  · rfl
  · exact AList.lookup_erase_ne hne

end MemoryPendingLoginStore

namespace LoginFlow

variable (f : LoginFlow)

/-! ### The binding cookie of a browser -/

/-- What a cookie of the backend makes of the binding cookie. -/
theorem bindingOf_receive (j : Jar) (c : SetCookie) :
    f.bindingOf (j.receive c) = f.bindingOf j ∨ c.name = f.binding.cookie.cookieName ∧
      f.bindingOf (j.receive c) = if c.maxAge < 0 then none
        else some (String.ofList (c.value.toList.filter validCookieValueChar)) := by
  unfold Jar.receive bindingOf
  split
  · by_cases heq : c.name = f.binding.cookie.cookieName
    · exact .inr ⟨heq, by rw [← heq, update_self]⟩
    · exact .inl (update_of_ne (Ne.symm heq) _ _)
  · exact .inl rfl

/-- The cookies that the backend sends to a browser. -/
def Sent (logins : List Begun) (browser : ℕ) (c : SetCookie) : Prop :=
  c = f.binding.clear ∨ (∃ value, c = f.session.setSession value) ∨
    ∃ l ∈ logins, l.browser = browser ∧ ∃ random, l.nonce = randomToken random ∧
      c = f.binding.begun l.nonce

/-- What a delivered cookie makes of the binding cookie. The nonce arrives as it was drawn. -/
theorem bindingOf_receive_sent {logins : List Begun} {browser : ℕ} {c : SetCookie}
    (h : f.Sent logins browser c) (j : Jar) :
    f.bindingOf (j.receive c) = none ∨ f.bindingOf (j.receive c) = f.bindingOf j ∨
      ∃ l ∈ logins, l.browser = browser ∧ f.bindingOf (j.receive c) = some l.nonce := by
  obtain hsame | ⟨hname, hnew⟩ := f.bindingOf_receive j c
  · exact .inr (.inl hsame)
  rcases h with rfl | ⟨value, rfl⟩ | ⟨l, hl, hbrowser, random, hnonce, rfl⟩
  · exact .inl (hnew.trans (if_pos (Int.negSucc_lt_zero 0)))
  · exact absurd hname f.names_ne
  · refine .inr (.inr ⟨l, hl, hbrowser, hnew.trans ?_⟩)
    rw [hnonce]
    refine (if_neg (not_lt.mpr f.binding.maxAge_nonneg)).trans ?_
    exact congrArg some (filter_randomToken random)

/-! ### Every nonce stays with its browser -/

/-- Nonces are told apart, and no other browser has had the nonce of a login. -/
structure Owned (s : State) : Prop where
  nonces : (s.logins.map (·.nonce)).Nodup
  own : ∀ b, ∀ j ∈ s.jars b, ∀ l ∈ s.logins, f.bindingOf j = some l.nonce → l.browser = b
  current : ∀ b, s.current b ∈ s.jars b
  flying : ∀ b, ∀ c ∈ s.inFlight b, f.Sent s.logins b c

variable {f}

variable {s : State} {b : ℕ} {state : String} {s' : State} {e : Event} {p : PendingLogin}

theorem Owned.unique (h : f.Owned s) {l l' : Begun} (hl : l ∈ s.logins) (hl' : l' ∈ s.logins)
    (heq : l.nonce = l'.nonce) : l = l' :=
  List.inj_on_of_nodup_map h.nonces hl hl' heq

/-- A change of cookies that brings no nonce of another browser. -/
theorem Owned.setJar (h : f.Owned s) {j : Jar}
    (hj : ∀ l ∈ s.logins, f.bindingOf j = some l.nonce → l.browser = b) :
    f.Owned (s.setJar b j) := by
  refine ⟨h.nonces, fun b' j' hj' => ?_, fun b' => ?_, h.flying⟩
  · by_cases heq : b' = b
    · subst heq
      rw [State.jars_setJar_self] at hj'
      rcases List.mem_cons.mp hj' with rfl | hj'
      · exact hj
      · exact h.own b' j' hj'
    · rw [State.jars_setJar_of_ne _ _ heq] at hj'
      exact h.own b' j' hj'
  · by_cases heq : b' = b
    · subst heq
      rw [State.current, State.jars_setJar_self]
      exact List.mem_cons_self
    · rw [State.current, State.jars_setJar_of_ne _ _ heq]
      exact h.current b'

theorem Owned.respond (h : f.Owned s) {cookies : List SetCookie}
    (hc : ∀ c ∈ cookies, f.Sent s.logins b c) : f.Owned (s.respond b cookies) := by
  refine ⟨h.nonces, h.own, h.current, fun b' => ?_⟩
  by_cases heq : b' = b
  · subst heq
    rw [State.inFlight_respond_self, List.forall_mem_append]
    exact ⟨h.flying b', hc⟩
  · rw [State.inFlight_respond_of_ne _ _ heq]
    exact h.flying b'

/-- A new login of a browser, with a nonce that nobody has. -/
theorem Owned.cons {s : State} (h : f.Owned s) {l : Begun} (hnew : ∀ l' ∈ s.logins, l'.nonce ≠ l.nonce)
    (hunguessed : ∀ b ≠ l.browser, ∀ j ∈ s.jars b, f.bindingOf j ≠ some l.nonce) :
    f.Owned { s with logins := l :: s.logins } := by
  refine ⟨?_, fun b j hj l' hl' hbinding => ?_, h.current, fun b c hc => ?_⟩
  · rw [List.map_cons, List.nodup_cons]
    refine ⟨fun hmem => ?_, h.nonces⟩
    obtain ⟨l', hl', heq⟩ := List.mem_map.mp hmem
    exact hnew l' hl' heq
  · rcases List.mem_cons.mp hl' with rfl | hl'
    · by_contra hne
      exact hunguessed b (Ne.symm hne) j hj hbinding
    · exact h.own b j hj l' hl' hbinding
  · rcases h.flying b c hc with hclear | hsession | ⟨l', hl', hrest⟩
    · exact .inl hclear
    · exact .inr (.inl hsession)
    · exact .inr (.inr ⟨l', List.mem_cons_of_mem _ hl', hrest⟩)

/-- The cookies that the callback handler sets. -/
theorem sent_serveCallback (store : MemoryPendingLoginStore) (r : Request) (state code : String)
    (now : ℤ) (exchange : String → String → Option TokenSet) (sessionID : String)
    (logins : List Begun) (b : ℕ) :
    ∀ c ∈ (f.serveCallback store r state code now exchange sessionID).2.1, f.Sent logins b c := by
  intro c hc
  unfold serveCallback at hc
  split at hc
  · cases hc
  · split at hc
    · split at hc
      · rw [List.mem_singleton] at hc
        exact .inl hc
      · simp only [List.mem_cons, List.not_mem_nil, or_false] at hc
        rcases hc with rfl | rfl
        · exact .inl rfl
        · exact .inr (.inl ⟨sessionID, rfl⟩)
    · rw [List.mem_singleton] at hc
      exact .inl hc

theorem Owned.step (h : f.Owned s) (hfair : f.Fair s e) (hstep : f.step s e = some s') :
    f.Owned s' := by
  cases e with
  | login b random returnTo now sweepNow =>
    cases hstep
    have hcons := h.cons hfair.1 hfair.2
    have hresp : f.Owned (State.respond { s with logins := login b random now :: s.logins } b
        [f.binding.begun (login b random now).nonce]) := by
      apply hcons.respond
      intro c hc
      rw [List.mem_singleton] at hc
      exact .inr (.inr ⟨_, List.mem_cons_self, rfl, random.nonce.toList, rfl, hc⟩)
    exact ⟨hresp.nonces, hresp.own, hresp.current, hresp.flying⟩
  | callback b r state code now exchange sessionID =>
    obtain ⟨-, rfl⟩ := step_callback hstep
    have hresp := h.respond (b := b)
      (sent_serveCallback s.pending r state code now exchange sessionID s.logins b)
    exact ⟨hresp.nonces, hresp.own, hresp.current, hresp.flying⟩
  | deliver b i =>
    obtain ⟨c, hc, rfl⟩ := step_deliver hstep
    have harrived : f.Owned (s.arrived b i) :=
      ⟨h.nonces, h.own, h.current, fun b' c' hc' => h.flying b' c' (State.mem_inFlight_of_arrived hc')⟩
    apply harrived.setJar
    intro l hl hbinding
    rcases f.bindingOf_receive_sent (h.flying b c hc) (s.current b) with
      hnone | hsame | ⟨l', hl', hb, hnew⟩
    · rw [hnone] at hbinding
      cases hbinding
    · exact h.own b _ (h.current b) l hl (hsame ▸ hbinding)
    · rw [hnew, Option.some.injEq] at hbinding
      rw [← h.unique hl' hl hbinding]
      exact hb
  | change b name value =>
    cases hstep
    apply h.setJar
    intro l hl hbinding
    by_cases hname : name = f.binding.cookie.cookieName
    · subst hname
      rw [bindingOf, update_self] at hbinding
      by_contra hne
      exact hfair rfl l hl hne hbinding
    · rw [bindingOf, update_of_ne (Ne.symm hname)] at hbinding
      exact h.own b _ (h.current b) l hl hbinding
  | sweep now =>
    cases hstep
    exact ⟨h.nonces, h.own, h.current, h.flying⟩

/-! ### Every login is completed by its browser, once -/

/-- A completion is that of a login which the same browser began, in time. -/
def Completes (logins : List Begun) (ttl : ℤ) (d : Completion) : Prop :=
  ∃ l ∈ logins, l.browser = d.browser ∧ l.state = d.state ∧ l.nonce = d.nonce ∧
    l.verifier = d.verifier ∧ Time.sub d.finished l.started ≤ ttl

/-- The store holds logins that were begun and not completed, and completions are as they should
be. -/
structure Filed (s : State) : Prop where
  stored : ∀ state p, s.pending.m.lookup state = some p →
    ∃ l ∈ s.logins, l.state = state ∧ l.nonce = p.nonce ∧ l.verifier = p.verifier ∧
      l.started = p.created
  unspent : ∀ state p, s.pending.m.lookup state = some p → ∀ d ∈ s.done, d.nonce ≠ p.nonce
  completed : ∀ d ∈ s.done, Completes s.logins s.pending.ttl d
  once : (s.done.map (·.nonce)).Nodup

theorem Completes.cons {logins : List Begun} {ttl : ℤ} {d : Completion} (h : Completes logins ttl d)
    (l : Begun) : Completes (l :: logins) ttl d := by
  obtain ⟨l', hl', hrest⟩ := h
  exact ⟨l', List.mem_cons_of_mem _ hl', hrest⟩

/-- The callback handler takes the pending login, and signs in only for the right cookie. -/
theorem serveCallback_cases (f : LoginFlow) (store : MemoryPendingLoginStore) (r : Request)
    (state code : String) (now : ℤ) (exchange : String → String → Option TokenSet)
    (sessionID : String) (b : ℕ) :
    (f.serveCallback store r state code now exchange sessionID).1 = (store.take state now).1 ∧
      (CallbackResult.completion b state code now
          (f.serveCallback store r state code now exchange sessionID).2.2 = [] ∨
        ∃ p, (store.take state now).2 = some p ∧
          r.cookie f.binding.cookie.cookieName = some p.nonce ∧
          CallbackResult.completion b state code now
            (f.serveCallback store r state code now exchange sessionID).2.2 =
              [⟨b, state, p.nonce, code, p.verifier, now⟩]) := by
  unfold serveCallback
  split
  next store' htake => exact ⟨by rw [htake], .inl rfl⟩
  next store' p htake =>
    rw [htake]
    split
    next hverify =>
      split
      · exact ⟨rfl, .inl rfl⟩
      · exact ⟨rfl, .inr ⟨p, rfl, ((f.binding.verify_iff r p.nonce).mp hverify).2, rfl⟩⟩
    · exact ⟨rfl, .inl rfl⟩

/-- A new login is filed with a nonce that no completion has. -/
theorem Filed.login (h : Filed s) {l : Begun} (hnew : ∀ l' ∈ s.logins, l'.nonce ≠ l.nonce)
    (returnTo : String) (sweepNow : ℤ) (inFlight : ℕ → List SetCookie) :
    Filed { s with
      pending := (f.serveLogin s.pending l returnTo sweepNow).1
      inFlight
      logins := l :: s.logins } := by
  have httl : (f.serveLogin s.pending l returnTo sweepNow).1.ttl = s.pending.ttl :=
    (s.pending.config_step (.put l.state { verifier := l.verifier, nonce := l.nonce, returnTo }
      l.started sweepNow)).1
  refine ⟨fun state p hp => ?_, fun state p hp d hd => ?_, fun d hd => ?_, h.once⟩
  · rcases MemoryPendingLoginStore.lookup_put hp with hold | ⟨rfl, rfl⟩
    · obtain ⟨l', hl', hrest⟩ := h.stored state p hold
      exact ⟨l', List.mem_cons_of_mem _ hl', hrest⟩
    · exact ⟨l, List.mem_cons_self, rfl, rfl, rfl, rfl⟩
  · rcases MemoryPendingLoginStore.lookup_put hp with hold | ⟨rfl, rfl⟩
    · exact h.unspent state p hold d hd
    · -- a completion belongs to an earlier login
      obtain ⟨l', hl', -, -, hnonce, -⟩ := h.completed d hd
      rw [← hnonce]
      exact hnew l' hl'
  · rw [httl]
    exact (h.completed d hd).cons l

/-- A callback completes at most the login that it takes from the store. -/
theorem Filed.callback (h : Filed s) (howned : f.Owned s) {r : Request}
    (hr : ∃ j ∈ s.jars b, f.Sends j r) (state code : String) (now : ℤ)
    (exchange : String → String → Option TokenSet) (sessionID : String)
    (inFlight : ℕ → List SetCookie) :
    Filed { s with
      pending := (f.serveCallback s.pending r state code now exchange sessionID).1
      inFlight
      done := CallbackResult.completion b state code now
        (f.serveCallback s.pending r state code now exchange sessionID).2.2 ++ s.done } := by
  obtain ⟨hstore, hresult⟩ :=
    f.serveCallback_cases s.pending r state code now exchange sessionID b
  have httl : (s.pending.take state now).1.ttl = s.pending.ttl :=
    (s.pending.config_step (.take state now)).1
  have hstored : ∀ state' p, (s.pending.take state now).1.m.lookup state' = some p →
      ∃ l ∈ s.logins, l.state = state' ∧ l.nonce = p.nonce ∧ l.verifier = p.verifier ∧
        l.started = p.created := fun state' p hp =>
    h.stored state' p (MemoryPendingLoginStore.lookup_take hp).2
  rw [hstore]
  rcases hresult with hnone | ⟨p, htake, hcookie, hone⟩
  · rw [hnone, List.nil_append]
    refine ⟨hstored, fun state' q hq d hd => ?_, fun d hd => ?_, h.once⟩
    · exact h.unspent state' q (MemoryPendingLoginStore.lookup_take hq).2 d hd
    · rw [httl]
      exact h.completed d hd
  · rw [hone, List.singleton_append]
    obtain ⟨hp, htime⟩ := MemoryPendingLoginStore.lookup_of_take htake
    obtain ⟨l, hl, hstate, hnonce, hverifier, hstarted⟩ := h.stored state p hp
    refine ⟨hstored, fun state' q hq d hd => ?_, fun d hd => ?_, ?_⟩
    · obtain ⟨hne, hq⟩ := MemoryPendingLoginStore.lookup_take hq
      rcases List.mem_cons.mp hd with rfl | hd
      · -- another pending login with the same nonce would be the same login
        intro heq
        obtain ⟨l', hl', hstate', hnonce', -⟩ := h.stored state' q hq
        have hsame : l = l' := howned.unique hl hl' (by rw [hnonce, hnonce', ← heq])
        exact hne (by rw [← hstate', ← hsame, hstate])
      · exact h.unspent state' q hq d hd
    · rw [httl]
      rcases List.mem_cons.mp hd with rfl | hd
      · obtain ⟨j, hj, hsends⟩ := hr
        have hbrowser : l.browser = b := by
          apply howned.own b j hj l hl
          rw [← hsends, hcookie, hnonce]
        exact ⟨l, hl, hbrowser, hstate, hnonce, hverifier, by rw [hstarted]; exact htime⟩
      · exact h.completed d hd
    · rw [List.map_cons, List.nodup_cons]
      refine ⟨fun hmem => ?_, h.once⟩
      obtain ⟨d, hd, heq⟩ := List.mem_map.mp hmem
      exact h.unspent state p hp d hd heq

theorem Filed.step (h : Filed s) (howned : f.Owned s) (hfair : f.Fair s e)
    (hstep : f.step s e = some s') : Filed s' := by
  cases e with
  | login b random returnTo now sweepNow =>
    cases hstep
    exact h.login hfair.1 returnTo sweepNow _
  | callback b r state code now exchange sessionID =>
    obtain ⟨hr, rfl⟩ := step_callback hstep
    exact h.callback howned hr state code now exchange sessionID _
  | deliver b i =>
    obtain ⟨c, -, rfl⟩ := step_deliver hstep
    exact ⟨h.stored, h.unspent, h.completed, h.once⟩
  | change b name value =>
    cases hstep
    exact ⟨h.stored, h.unspent, h.completed, h.once⟩
  | sweep now =>
    cases hstep
    have hsub : ∀ state p, (s.pending.sweep now).m.lookup state = some p →
        s.pending.m.lookup state = some p := by
      intro state p hp
      rw [MemoryPendingLoginStore.lookup_sweep, MemoryPendingLoginStore.view,
        Option.filter_eq_some_iff] at hp
      exact hp.1
    exact ⟨fun state p hp => h.stored state p (hsub state p hp),
      fun state p hp => h.unspent state p (hsub state p hp), h.completed, h.once⟩

theorem ttl_step (hstep : f.step s e = some s') : s'.pending.ttl = s.pending.ttl := by
  cases e with
  | login b random returnTo now sweepNow =>
    cases hstep
    exact (s.pending.config_step (.put _ _ _ _)).1
  | callback b r state code now exchange sessionID =>
    obtain ⟨-, rfl⟩ := step_callback hstep
    obtain ⟨hstore, -⟩ := f.serveCallback_cases s.pending r state code now exchange sessionID b
    rw [hstore]
    exact (s.pending.config_step (.take state now)).1
  | deliver b i =>
    obtain ⟨c, -, rfl⟩ := step_deliver hstep
    rfl
  | change b name value =>
    cases hstep
    rfl
  | sweep now =>
    cases hstep
    rfl

/-- What a run of fair steps keeps to: every session was made for a login that the same browser had
begun, with the verifier of that login and in time, and every login was completed once at most. -/
structure ByOwner (s : State) (ttl : ℤ) : Prop where
  completed : ∀ d ∈ s.done, Completes s.logins ttl d
  once : (s.done.map (·.nonce)).Nodup
  nonces : (s.logins.map (·.nonce)).Nodup

/-- **Only the browser that began a login completes it, once and in time**, whatever other browsers
do, in whatever order requests are served and responses arrive. -/
theorem completedByOwner (f : LoginFlow) {ttl max : ℤ} {s₀ s : State} {es : List Event}
    (hinit : (f.system ttl max).IsInit s₀) (hfair : (f.system ttl max).EveryStep f.Fair s₀ es)
    (hrun : (f.system ttl max).run s₀ es = some s) :
    ByOwner s (MemoryPendingLoginStore.ttlOrDefault ttl) := by
  have hinv : (f.Owned s ∧ Filed s) ∧
      s.pending.ttl = MemoryPendingLoginStore.ttlOrDefault ttl := by
    refine StepSystem.run_invariant (I := fun s => (f.Owned s ∧ Filed s) ∧
      s.pending.ttl = MemoryPendingLoginStore.ttlOrDefault ttl) ?_ hfair hrun ?_
    · rintro t e t' ⟨⟨howned, hfiled⟩, httl⟩ hfair hstep
      exact ⟨⟨howned.step hfair hstep, hfiled.step howned hfair hstep⟩, (ttl_step hstep).trans httl⟩
    · cases hinit
      have hempty : ∀ state, (initial ttl max).pending.m.lookup state = none :=
        fun state => AList.lookup_empty state
      refine ⟨⟨⟨List.nodup_nil, ?_, ?_, ?_⟩, ⟨?_, ?_, ?_, List.nodup_nil⟩⟩, rfl⟩
      · intro b j hj l hl
        cases hl
      · intro b
        exact List.mem_cons_self
      · intro b c hc
        cases hc
      · intro state p hp
        rw [hempty] at hp
        cases hp
      · intro state p hp d hd
        cases hd
      · intro d hd
        cases hd
  obtain ⟨⟨howned, hfiled⟩, httl⟩ := hinv
  exact ⟨httl ▸ hfiled.completed, hfiled.once, howned.nonces⟩

/-- A backend with two cookies. -/
def sampleFlow : LoginFlow where
  binding := { cookie := { name := "l", secure := false } }
  session := { name := "s", secure := false }
  names_ne := by decide +kernel

/-- A poor source of randomness. -/
def sampleRandom : LoginRandom :=
  ⟨Vector.replicate 32 0, Vector.replicate 32 0, Vector.replicate 32 0⟩

/-- The browser keeps the nonce and sends it with the callback. -/
def sampleRequest : Request :=
  ⟨"GET", Header.ofFields
    [("Cookie", String.ofList ('l' :: '=' :: Base64.encodeChars (List.replicate 32 0)))]⟩

/-- A login, the delivery of its cookie, and the callback. -/
def sampleEvents : List Event :=
  [.login 0 sampleRandom "/" 5 5, .deliver 0 0, .callback 0 sampleRequest
    (randomToken (List.replicate 32 0)) "code" 6 (fun _ _ => some {}) "id"]

theorem completedByOwner_sample :
    ∃ s, (sampleFlow.system 0 0).run (initial 0 0) sampleEvents = some s ∧ s.done.length = 1 ∧
      ByOwner s defaultPendingLoginTTL := by
  have hdone : ((sampleFlow.system 0 0).run (initial 0 0) sampleEvents).map (·.done.length) =
      some 1 := by
    decide +kernel
  obtain ⟨s, hs, hlength⟩ := Option.map_eq_some_iff.mp hdone
  have hfair : (sampleFlow.system 0 0).EveryStep sampleFlow.Fair (initial 0 0) sampleEvents := by
    refine ⟨⟨fun l hl => ?_, fun b hb j hj => ?_⟩,
      fun _ _ => ⟨trivial, fun _ _ => ⟨trivial, fun _ _ => trivial⟩⟩⟩
    · cases hl
    · rw [List.mem_singleton.mp hj]
      exact (Option.some_ne_none _).symm
  exact ⟨s, hs, hlength, completedByOwner sampleFlow rfl hfair hs⟩

/-! ### Others cannot keep a login from being completed -/

/-- A step that does not use the state, and does not sweep after the given time. -/
def Spares (state : String) (deadline : ℤ) : Event → Prop
  | .login _ random _ _ sweepNow => randomToken random.state.toList ≠ state ∧ sweepNow ≤ deadline
  | .callback _ _ state' _ _ _ _ => state' ≠ state
  | .sweep now => now ≤ deadline
  | _ => True

/-- Such a step leaves a login pending that does not expire by then. -/
theorem lookup_step_of_spares {deadline : ℤ} (hspares : Spares state deadline e)
    (hstep : f.step s e = some s') (hp : s.pending.m.lookup state = some p)
    (hlive : s.pending.expired p deadline = false) :
    s'.pending.m.lookup state = some p := by
  cases e with
  | login b random returnTo now sweepNow =>
    cases hstep
    exact MemoryPendingLoginStore.lookup_put_of_ne (Ne.symm hspares.1) hp hlive hspares.2
  | callback b r state' code now exchange sessionID =>
    obtain ⟨-, rfl⟩ := step_callback hstep
    obtain ⟨hstore, -⟩ := f.serveCallback_cases s.pending r state' code now exchange sessionID b
    rw [hstore, MemoryPendingLoginStore.lookup_take_of_ne (Ne.symm hspares)]
    exact hp
  | deliver b i =>
    obtain ⟨c, -, rfl⟩ := step_deliver hstep
    exact hp
  | change b name value =>
    cases hstep
    exact hp
  | sweep now =>
    cases hstep
    exact MemoryPendingLoginStore.lookup_sweep_of_unexpired hp hlive hspares

/-- The same for any number of steps. -/
theorem lookup_run_of_spares {ttl max : ℤ} {es : List Event} {deadline : ℤ}
    (hspares : ∀ e ∈ es, Spares state deadline e) (hrun : (f.system ttl max).run s es = some s')
    (hp : s.pending.m.lookup state = some p) (hlive : s.pending.expired p deadline = false) :
    s'.pending.m.lookup state = some p ∧ s'.pending.expired p deadline = false := by
  refine StepSystem.run_invariant (I := fun t => t.pending.m.lookup state = some p ∧
      t.pending.expired p deadline = false) ?_
    (StepSystem.everyStep_of_forall_mem s hspares) hrun ⟨hp, hlive⟩
  rintro t e t' ⟨hp, hlive⟩ hspares hstep
  refine ⟨lookup_step_of_spares hspares hstep hp hlive, ?_⟩
  rw [MemoryPendingLoginStore.expired_congr (ttl_step hstep)]
  exact hlive

/-- A callback with a pending state and its nonce in the cookie is accepted. -/
theorem serveCallback_eq_signedIn {store : MemoryPendingLoginStore} {r : Request}
    {code sessionID : String} {now : ℤ} {exchange : String → String → Option TokenSet}
    {ts : TokenSet} (hp : store.m.lookup state = some p) (hlive : store.expired p now = false)
    (hnonce : p.nonce ≠ "") (hcookie : r.cookie f.binding.cookie.cookieName = some p.nonce)
    (hexchange : exchange code p.verifier = some ts) :
    (f.serveCallback store r state code now exchange sessionID).2.2 = .signedIn p ts := by
  have htake : (store.take state now).2 = some p := by
    rw [(store.take_eq state now).1, MemoryPendingLoginStore.view, hp]
    simp [hlive]
  have hverify : f.binding.verify r p.nonce = true :=
    (f.binding.verify_iff r p.nonce).mpr ⟨hnonce, hcookie⟩
  unfold serveCallback
  split
  next store' hnone =>
    rw [hnone] at htake
    cases htake
  next store' q hsome =>
    rw [hsome, Option.some.injEq] at htake
    subst htake
    simp [hverify, hexchange]

/-- **Others cannot keep a browser from completing its login.** Once the login is filed and its
nonce has come back to the browser, any steps of any browsers may follow that do not use its state:
a callback in time is accepted, with the verifier of the login. -/
theorem login_completes (f : LoginFlow) {ttl max : ℤ} {s s₁ s₂ : State} {es : List Event} {b : ℕ}
    {random : LoginRandom} {returnTo code sessionID : String} {now sweepNow deadline : ℤ}
    {exchange : String → String → Option TokenSet} {ts : TokenSet} {j : Jar} {r : Request}
    (hput : (f.serveLogin s.pending (login b random now) returnTo sweepNow).2.2 = none)
    (hlogin : f.step s (.login b random returnTo now sweepNow) = some s₁)
    (hspares : ∀ e ∈ es, Spares (login b random now).state deadline e)
    (hrun : (f.system ttl max).run s₁ es = some s₂)
    (hj : j ∈ s₂.jars b) (hnonce : f.bindingOf j = some (login b random now).nonce)
    (hr : f.Sends j r) (htime : Time.sub deadline now ≤ s.pending.ttl)
    (hexchange : exchange code (login b random now).verifier = some ts) :
    ∃ s₃, f.step s₂ (.callback b r (login b random now).state code deadline exchange sessionID) =
        some s₃ ∧
      s₃.done = ⟨b, (login b random now).state, (login b random now).nonce, code,
        (login b random now).verifier, deadline⟩ :: s₂.done := by
  have httl : s₁.pending.ttl = s.pending.ttl := ttl_step hlogin
  cases hlogin
  set l := login b random now with hl
  -- what is filed stays filed
  obtain ⟨hp, hlive⟩ := lookup_run_of_spares hspares hrun
    (MemoryPendingLoginStore.lookup_put_self hput) (by
      simp only [MemoryPendingLoginStore.expired, decide_eq_false_iff_not, not_lt]
      rw [show PendingLogin.created _ = now from rfl]
      exact htime.trans_eq httl.symm)
  have hne : l.nonce ≠ "" := randomToken_ne_empty (by simp)
  have hsigned : (f.serveCallback s₂.pending r l.state code deadline exchange sessionID).2.2 =
      .signedIn _ ts :=
    serveCallback_eq_signedIn hp hlive hne (hr.trans hnonce) hexchange
  refine ⟨_, if_pos ⟨j, hj, hr⟩, ?_⟩
  show CallbackResult.completion b l.state code deadline _ ++ s₂.done = _
  rw [hsigned]
  rfl

def otherRandom : LoginRandom :=
  ⟨Vector.replicate 32 1, Vector.replicate 32 1, Vector.replicate 32 1⟩

/-- Another browser begins a login, and comes back with a state that nobody drew. -/
def meanwhile : List Event :=
  [.login 1 otherRandom "/" 5 5,
    .callback 1 ⟨"GET", Header.ofFields []⟩ "guess" "code" 6 (fun _ _ => some {}) "id1", .sweep 6]

theorem login_completes_sample :
    ∃ s₂ s₃, (sampleFlow.system 0 0).run (initial 0 0)
        (.login 0 sampleRandom "/" 5 5 :: .deliver 0 0 :: meanwhile) = some s₂ ∧
      sampleFlow.step s₂ (.callback 0 sampleRequest (login 0 sampleRandom 5).state "code" 6
        (fun _ _ => some {}) "id") = some s₃ ∧
      s₃.done = [⟨0, (login 0 sampleRandom 5).state, (login 0 sampleRandom 5).nonce, "code",
        (login 0 sampleRandom 5).verifier, 6⟩] := by
  let j : Jar := Jar.receive (fun _ => none) (sampleFlow.binding.begun (login 0 sampleRandom 5).nonce)
  have hsends : sampleFlow.Sends j sampleRequest := by decide +kernel
  have hput : (sampleFlow.serveLogin (initial 0 0).pending (login 0 sampleRandom 5) "/" 5).2.2 =
      none := by
    decide +kernel
  have hspares : ∀ e ∈ .deliver 0 0 :: meanwhile, Spares (login 0 sampleRandom 5).state 6 e := by
    have hstates : (login 1 otherRandom 5).state ≠ (login 0 sampleRandom 5).state ∧
        "guess" ≠ (login 0 sampleRandom 5).state := by
      decide +kernel
    simp only [meanwhile, List.forall_mem_cons]
    exact ⟨trivial, ⟨hstates.1, by decide⟩, hstates.2, le_refl (6 : ℤ), List.forall_mem_nil _⟩
  obtain ⟨s₃, hs₃, hdone⟩ := @login_completes sampleFlow 0 0 (initial 0 0) _ _
    (.deliver 0 0 :: meanwhile) 0
    sampleRandom "/" "code" "id" 5 5 6 (fun _ _ => some {}) {} j sampleRequest hput rfl
    hspares rfl List.mem_cons_self (by decide +kernel) hsends (by decide) rfl
  exact ⟨_, s₃, rfl, hs₃, hdone⟩

end LoginFlow

end Bff
