import BackendKit.Bff.Gateway
import Mathlib.Data.List.Chain

/-!
# A session in use does not idle out

The gateway slides the idle timestamp of a session only when it is at least `TouchInterval` old,
to spare the store a write per request. So the timestamp lags behind the requests, and a session
in use is at risk of being idled out by the store all the same.

`Gateway.serving` serves a sequence of requests. What one request leaves behind is that the idle
timestamp lags its touch check by less than the interval, whether or not it was touched
(`Gateway.lag_touchSession`). With requests no further apart than the idle bound less the interval,
every request then finds the session (`Gateway.active_found`).
-/

open GoStd

namespace Bff

/-- A request, the clock readings it takes and the answers of the token endpoint. -/
structure Visit where
  request : Request
  readings : Readings
  refresher : TokenRefresher

namespace Memory

variable (m : Memory) (p : ℕ)

/-- Changing a session and writing it back leaves the store's bounds alone. -/
theorem bounds_modify_put (f : Session → Session) (hf : ∀ s, (f s).id = s.id) :
    ((m.modify p f hf).put p).store.idle = m.store.idle ∧
      ((m.modify p f hf).put p).store.absolute = m.store.absolute := by
  show ((m.store.put p _).idle = _) ∧ ((m.store.put p _).absolute = _)
  unfold MemoryStore.put
  split <;> exact ⟨rfl, rfl⟩

theorem heap_modify_put (f : Session → Session) (hf : ∀ s, (f s).id = s.id) :
    ((m.modify p f hf).put p).heap p = f (m.heap p) :=
  Function.update_self p _ _

end Memory

namespace Gateway

variable (g : Gateway)

/-- Serve requests one after the other. -/
def serving : StepSystem Memory Visit where
  IsInit _ := True
  step m v := some (g.proxyWithSession v.refresher v.readings m v.request).1

/-- The request passes the CSRF check of the session at `p`, and gets an access token for it. -/
structure Passes (p : ℕ) (m : Memory) (v : Visit) : Prop where
  csrf : g.checkCSRF v.request (m.heap p) = true
  fresh : ∃ access, (g.ensureFresh v.refresher v.readings m p).2 = .ok access

/-- The request finds the session at `p`, is forwarded with an access token of it, and leaves an
idle timestamp that lags its touch check by less than the touch interval. -/
structure Found (id : String) (p : ℕ) (m : Memory) (v : Visit) : Prop where
  resolves : g.Resolves v.readings m v.request id p
  forwarded : ∃ access, (g.proxyWithSession v.refresher v.readings m v.request).2 =
    .forwarded (withBearer v.request access)
  lag : ∀ m', g.serving.step m v = some m' → m'.store.sessions id = some p ∧
    v.readings.touch - (m'.heap p).lastSeen < g.touchIntervalOrDefault

/-- Each request looks the session up at most `gap` after the touch check of the one before. -/
def Paced (gap : ℤ) (vs : List Visit) : Prop :=
  vs.IsChain fun v v' => v'.readings.getCheck - v.readings.touch ≤ gap

variable {g} {m : Memory} {p : ℕ} {id : String} {v : Visit}

theorem passes_iff : g.Passes p m v ↔ g.checkCSRF v.request (m.heap p) = true ∧
    (g.ensureFresh v.refresher v.readings m p).2.isOk = true := by
  constructor
  · rintro ⟨hcsrf, access, hfresh⟩
    rw [hfresh]
    exact ⟨hcsrf, rfl⟩
  · rintro ⟨hcsrf, hok⟩
    refine ⟨hcsrf, ?_⟩
    revert hok
    rcases (g.ensureFresh v.refresher v.readings m p).2 with err | access
    · exact fun hok => Bool.noConfusion hok
    · exact fun _ => ⟨access, rfl⟩

instance (p : ℕ) (m : Memory) (v : Visit) : Decidable (g.Passes p m v) :=
  decidable_of_iff _ passes_iff.symm

/-! ### What one request leaves behind -/

/-- A refresh leaves the store's bounds alone. -/
theorem bounds_ensureFresh (refresher : TokenRefresher) (t : Readings) :
    (g.ensureFresh refresher t m p).1.store.idle = m.store.idle ∧
      (g.ensureFresh refresher t m p).1.store.absolute = m.store.absolute := by
  unfold ensureFresh
  split
  · exact ⟨rfl, rfl⟩
  split
  · exact ⟨rfl, rfl⟩
  split
  · exact ⟨rfl, rfl⟩
  · exact m.bounds_modify_put p _ _

theorem bounds_touchSession (t : Readings) :
    (g.touchSession t m p).store.idle = m.store.idle ∧
      (g.touchSession t m p).store.absolute = m.store.absolute := by
  unfold touchSession
  split
  · exact m.bounds_modify_put p _ _
  · exact ⟨rfl, rfl⟩

/-- Touched or not, the idle timestamp lags the touch check by less than the interval. -/
theorem lag_touchSession (hpos : 0 < g.touchIntervalOrDefault)
    (hmax : g.touchIntervalOrDefault ≤ Duration.maxValue) (t : Readings) :
    t.touch - ((g.touchSession t m p).heap p).lastSeen < g.touchIntervalOrDefault := by
  unfold touchSession
  split
  · rw [Memory.touch, Memory.heap_modify_put, Session.touch_lastSeen]
    omega
  · rename_i hdue
    -- the touch was skipped because the timestamp was young enough
    have hyoung : Time.sub t.touch (m.heap p).lastSeen < g.touchIntervalOrDefault := by
      simp only [touchDue, Bool.or_eq_true, decide_eq_true_eq, not_or, not_le] at hdue
      exact hdue.2
    exact Time.lt_of_sub_lt hmax hyoung

/-- The way of a request that finds its session and passes. -/
theorem proxyWithSession_of_passes (hauth : g.disableAuth = false)
    (hr : g.Resolves v.readings m v.request id p) (hpass : g.Passes p m v) :
    ∃ access, g.proxyWithSession v.refresher v.readings m v.request =
      (g.touchSession v.readings (g.ensureFresh v.refresher v.readings m p).1 p,
        .forwarded (withBearer v.request access)) := by
  obtain ⟨access, haccess⟩ := hpass.fresh
  refine ⟨access, ?_⟩
  have hfresh : g.ensureFresh v.refresher v.readings m p =
      ((g.ensureFresh v.refresher v.readings m p).1, .ok access) := Prod.ext rfl haccess
  simp only [proxyWithSession, hauth, hr.sessionFromRequest_eq, hpass.csrf]
  rw [hfresh]
  rfl

/-- Without an absolute bound, a session expires only by idling. -/
theorem resolves_of_lt (habs : m.store.absolute ≤ 0) (hcookie : g.cookie.sessionID v.request = some id)
    (hstored : m.store.sessions id = some p)
    (hseen : v.readings.getCheck - (m.heap p).lastSeen < m.store.idle) :
    g.Resolves v.readings m v.request id p := by
  refine ⟨hcookie, hstored, ?_⟩
  rw [← Bool.not_eq_true, MemoryStore.expired, expiredAt_iff]
  rintro (⟨hpos, -⟩ | ⟨hpos, hle⟩)
  · omega
  · have := Time.le_of_le_sub hpos hle
    omega

/-- A request that finds its session and passes leaves a young idle timestamp. -/
theorem found_of_resolves (hauth : g.disableAuth = false) (hpos : 0 < g.touchIntervalOrDefault)
    (hmax : g.touchIntervalOrDefault ≤ Duration.maxValue)
    (hr : g.Resolves v.readings m v.request id p) (hpass : g.Passes p m v) : g.Found id p m v := by
  obtain ⟨access, hout⟩ := proxyWithSession_of_passes hauth hr hpass
  refine ⟨hr, ⟨access, congrArg Prod.snd hout⟩, ?_⟩
  rintro _ ⟨⟩
  rw [hout]
  have hfresh : (g.ensureFresh v.refresher v.readings m p).1.store.sessions id = some p := by
    rw [sessions_ensureFresh hr.stored]
    exact hr.stored
  constructor
  · show (g.touchSession _ _ p).store.sessions id = some p
    rw [sessions_touchSession hfresh]
    exact hfresh
  · exact lag_touchSession hpos hmax v.readings

/-- Such a request leaves the store's bounds alone. -/
theorem bounds_of_resolves (hauth : g.disableAuth = false)
    (hr : g.Resolves v.readings m v.request id p) (hpass : g.Passes p m v) {m' : Memory}
    (h : g.serving.step m v = some m') :
    m'.store.idle = m.store.idle ∧ m'.store.absolute = m.store.absolute := by
  obtain ⟨access, hout⟩ := proxyWithSession_of_passes hauth hr hpass
  obtain ⟨hidle, habs⟩ := bounds_touchSession (g := g) (p := p) v.readings
    (m := (g.ensureFresh v.refresher v.readings m p).1)
  obtain ⟨hidle', habs'⟩ := bounds_ensureFresh (g := g) (p := p) (m := m) v.refresher v.readings
  cases h
  rw [hout]
  exact ⟨hidle.trans hidle', habs.trans habs'⟩

/-! ### Sequences of requests -/

/-- Requests that come in time find the session, one after the other. The next request is in time
if it comes less than the idle bound after the idle timestamp. -/
theorem everyStep_found (hauth : g.disableAuth = false) (hpos : 0 < g.touchIntervalOrDefault)
    (hmax : g.touchIntervalOrDefault ≤ Duration.maxValue) {vs : List Visit}
    (hcookie : ∀ v ∈ vs, g.cookie.sessionID v.request = some id)
    (habs : m.store.absolute ≤ 0) (hstored : m.store.sessions id = some p)
    (hnext : ∀ v ∈ vs.head?, v.readings.getCheck - (m.heap p).lastSeen < m.store.idle)
    (hpaced : Paced (m.store.idle - g.touchIntervalOrDefault) vs)
    (hpass : g.serving.EveryStep (g.Passes p) m vs) :
    g.serving.EveryStep (g.Found id p) m vs := by
  induction vs generalizing m with
  | nil => trivial
  | cons v vs ih =>
    have hr : g.Resolves v.readings m v.request id p :=
      resolves_of_lt habs (hcookie v (List.mem_cons_self ..)) hstored (hnext v rfl)
    have hfound := found_of_resolves hauth hpos hmax hr hpass.1
    refine ⟨hfound, fun m' hm' => ?_⟩
    obtain ⟨hkept, hlag⟩ := hfound.lag m' hm'
    obtain ⟨hidle', habs'⟩ := bounds_of_resolves hauth hr hpass.1 hm'
    apply ih
    · exact fun v' hv' => hcookie v' (List.mem_cons_of_mem v hv')
    · rw [habs']
      exact habs
    · exact hkept
    · -- the gap and the lag add up to less than the idle bound
      intro v' hv'
      have hgap : v'.readings.getCheck - v.readings.touch ≤
          m.store.idle - g.touchIntervalOrDefault := hpaced.rel_head? hv'
      rw [hidle']
      omega
    · rw [hidle']
      exact hpaced.tail
    · exact hpass.2 m' hm'

/-- A session in use is not idled out. A new session is stored in memory, without an absolute
bound; the first request comes less than the idle bound after the login, and each later one at
most the idle bound less the touch interval after the touch check of the one before. Then every
request finds the session, and the idle timestamp never lags the last request by the touch
interval or more. -/
theorem active_found (g : Gateway) (hauth : g.disableAuth = false)
    (hpos : 0 < g.touchIntervalOrDefault) (hmax : g.touchIntervalOrDefault ≤ Duration.maxValue)
    (m : Memory) (p : ℕ) (id csrf : String) (ts : Option TokenSet) (user : UserInfo) (created : ℤ)
    (hstored : m.store.sessions id = some p)
    (hnew : m.heap p = Session.new id csrf ts user created)
    (habs : m.store.absolute ≤ 0) (vs : List Visit)
    (hcookie : ∀ v ∈ vs, g.cookie.sessionID v.request = some id)
    (hfirst : ∀ v ∈ vs.head?, v.readings.getCheck - created < m.store.idle)
    (hpaced : Paced (m.store.idle - g.touchIntervalOrDefault) vs)
    (hpass : g.serving.EveryStep (g.Passes p) m vs) :
    g.serving.EveryStep (g.Found id p) m vs := by
  have hseen : (m.heap p).lastSeen = created := by rw [hnew]; rfl
  exact everyStep_found hauth hpos hmax hcookie habs hstored (hseen ▸ hfirst) hpaced hpass

section Example

open Duration (second minute)

/-- A browser that has just logged in, with an idle bound of five minutes. -/
def loggedIn : Memory where
  store := { MemoryStore.new (5 * minute) 0 with
    sessions := fun id => if id = "s1" then some 0 else none }
  heap _ := Session.new "s1" "c" (some { accessToken := "at", expiresIn := 3600 }) {} 0
  disjoint _ _ := rfl
  keyed id p hp := by
    simp only [Option.ite_none_right_eq_some] at hp
    exact hp.1.symm

/-- A request that is handled at one instant, while the token endpoint is down. -/
def visitAt (t : ℤ) : Visit where
  request := postWithBearer
  readings := ⟨t, t, t, t, t, t, t⟩
  refresher _ := .error (.leaf (.other "connection refused"))

/-- With the default touch interval of a minute: the request at 4 min is touched, the one at
4 min 30 s is not, and the one at 8 min 30 s, as late as it may be, still finds the session. -/
theorem active_found_untouched : let g : Gateway := { cookie := { name := "sid", secure := true } }
    let vs := [visitAt (4 * minute), visitAt (4 * minute + 30 * second),
      visitAt (8 * minute + 30 * second)]
    g.serving.EveryStep (g.Found "s1" 0) loggedIn vs := by
  intro g vs
  refine active_found g rfl (by decide) (by decide) loggedIn 0 "s1" "c"
    (some { accessToken := "at", expiresIn := 3600 }) {} 0 rfl rfl (by decide) vs ?_ ?_ ?_ ?_
  · intro v hv
    simp only [vs, List.mem_cons, List.not_mem_nil, or_false] at hv
    rcases hv with rfl | rfl | rfl <;> exact sessionID_postWithBearer
  · rintro _ ⟨⟩
    decide
  · refine List.isChain_cons_cons.mpr ⟨by decide, List.isChain_cons_cons.mpr ⟨by decide, ?_⟩⟩
    exact List.isChain_singleton _
  · exact StepSystem.everyStep_of_checkEvery (by decide +kernel)

end Example

end Gateway

end Bff
