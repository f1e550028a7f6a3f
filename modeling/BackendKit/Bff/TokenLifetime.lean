import BackendKit.Socrate.TokenExpiry

/-!
# Lifetimes of access tokens

The token endpoint says for how many seconds an access token is good (`expires_in`). The session of a
browser (`bff/session.go`) and the client (`tokenExpiry`, `socrate/client.go`) make an instant of that
number, each with a product of its own that wraps.

* `wraps` counts how often the product of a lifetime wraps.
* `longerIsLater_iff`: a longer lifetime gives a later expiry unless the product wraps too often, and a
  token is valid when it has just been given unless its lifetime has wrapped into the past.
* `forall_longerIsLater_iff`: neither happens up to a bound exactly if the bound is at most
  `longestLifetime`.
-/

open GoStd
open Duration (second seconds)

namespace Bff

/-- How often the product of a number of seconds with `time.Second` wraps. -/
def wraps (n : ℤ) : ℤ := (n * second + 2 ^ 63) / 2 ^ 64

/-- The longest lifetime in seconds that a `time.Duration` has room for, about 292 years. -/
def longestLifetime : ℤ := 9223372036

/-- What the second lifetime has more than the first makes up for its wraps. -/
def WrapsInOrder (e₁ e₂ : Int64) : Prop :=
  (wraps e₂.toInt - wraps e₁.toInt) * 2 ^ 64 ≤ (e₂.toInt - e₁.toInt) * second

/-- The wraps of a lifetime take less than all of it away. -/
def WrapsForward (e : Int64) : Prop := wraps e.toInt * 2 ^ 64 < e.toInt * second

/-- Each wrap takes `2 ^ 64` nanoseconds away. -/
theorem seconds_eq (n : ℤ) : seconds n = n * second - wraps n * 2 ^ 64 := by
  unfold seconds wraps
  generalize n * second = p
  rw [Int.bmod_def]
  split <;> omega

theorem seconds_le_seconds_iff {e₁ e₂ : Int64} :
    seconds e₁.toInt ≤ seconds e₂.toInt ↔ WrapsInOrder e₁ e₂ := by
  rw [WrapsInOrder, seconds_eq, seconds_eq, Int.sub_mul, Int.sub_mul]
  omega

/-! ### What is recorded -/

section

variable (s : Session) (ts : TokenSet) (now : ℤ)

/-- The session after it was given the tokens with another lifetime. -/
def Session.givenFor (e : Int64) : Session :=
  s.applyTokens (some { ts with expiresIn := e.toInt }) now

/-- The session expires no earlier with the second lifetime than with the first. -/
def SessionInOrder (e₁ e₂ : Int64) : Prop :=
  (s.givenFor ts now e₁).accessExpiry ≤ (s.givenFor ts now e₂).accessExpiry

/-- The access token is valid when it has just been given. -/
def ValidWhenGiven (e : Int64) : Prop := (s.givenFor ts now e).accessValid now 0 = true

variable (wire : Socrate.Wire) (tr : Socrate.TokenResponse) (sent : ℤ)

/-- A service token expires no earlier with the second lifetime than with the first. -/
def ServiceInOrder (e₁ e₂ : Int64) : Prop :=
  Socrate.tokenExpiry wire { tr with expiresIn := e₁ } sent ≤
    Socrate.tokenExpiry wire { tr with expiresIn := e₂ } sent

end

section

variable {s : Session} {ts : TokenSet} {now : ℤ} {wire : Socrate.Wire} {tr : Socrate.TokenResponse}
  {sent : ℤ} {e e₁ e₂ : Int64}

theorem accessExpiry_givenFor (he : 0 < e) :
    (s.givenFor ts now e).accessExpiry = now + seconds e.toInt :=
  if_pos (Int64.lt_iff_toInt_lt.mp he)

theorem sessionInOrder_iff (h₁ : 0 < e₁) (h₂ : 0 < e₂) :
    SessionInOrder s ts now e₁ e₂ ↔ WrapsInOrder e₁ e₂ := by
  rw [SessionInOrder, accessExpiry_givenFor h₁, accessExpiry_givenFor h₂, Int.add_le_add_iff_left,
    seconds_le_seconds_iff]

theorem validWhenGiven_iff (he : 0 < e) (htoken : ts.accessToken ≠ "") :
    ValidWhenGiven s ts now e ↔ WrapsForward e := by
  have htoken' : (s.givenFor ts now e).accessToken ≠ "" := htoken
  unfold ValidWhenGiven Session.accessValid WrapsForward
  rw [accessExpiry_givenFor he, seconds_eq, Bool.and_eq_true, decide_eq_true_eq, decide_eq_true_eq,
    and_iff_right htoken']
  omega

/-- Without a claim that is taken, the expiry of a service token is counted from its lifetime. -/
theorem tokenExpiry_of_takenExp_eq_none (he : 0 < e) (hclaim : Socrate.takenExp wire tr sent = none) :
    Socrate.tokenExpiry wire { tr with expiresIn := e } sent = sent + seconds e.toInt := by
  have hclaim' : Socrate.takenExp wire { tr with expiresIn := e } sent = none := hclaim
  rw [Socrate.tokenExpiry_of_not_taken hclaim']
  exact if_pos he

theorem serviceInOrder_iff (h₁ : 0 < e₁) (h₂ : 0 < e₂) (hclaim : Socrate.takenExp wire tr sent = none) :
    ServiceInOrder wire tr sent e₁ e₂ ↔ WrapsInOrder e₁ e₂ := by
  rw [ServiceInOrder, tokenExpiry_of_takenExp_eq_none h₁ hclaim,
    tokenExpiry_of_takenExp_eq_none h₂ hclaim, Int.add_le_add_iff_left, seconds_le_seconds_iff]

/-- What is asked of two lifetimes, for a session and for a service token. -/
structure LongerIsLater (s : Session) (ts : TokenSet) (now : ℤ) (wire : Socrate.Wire)
    (tr : Socrate.TokenResponse) (sent : ℤ) (e₁ e₂ : Int64) : Prop where
  session : SessionInOrder s ts now e₁ e₂
  valid : ts.accessToken ≠ "" → ValidWhenGiven s ts now e₁ ∧ ValidWhenGiven s ts now e₂
  /-- If the expiry is counted at all. -/
  service : Socrate.takenExp wire tr sent = none → ServiceInOrder wire tr sent e₁ e₂

theorem longerIsLater_iff_wraps (h₁ : 0 < e₁) (hle : e₁ ≤ e₂) :
    LongerIsLater s ts now wire tr sent e₁ e₂ ↔
      WrapsInOrder e₁ e₂ ∧ (ts.accessToken ≠ "" → WrapsForward e₁ ∧ WrapsForward e₂) := by
  have h₂ : 0 < e₂ := Int64.lt_of_lt_of_le h₁ hle
  constructor
  · intro h
    refine ⟨(sessionInOrder_iff h₁ h₂).mp h.session, fun htoken => ?_⟩
    exact (h.valid htoken).imp (validWhenGiven_iff h₁ htoken).mp (validWhenGiven_iff h₂ htoken).mp
  · rintro ⟨hwraps, hforward⟩
    exact {
      session := (sessionInOrder_iff h₁ h₂).mpr hwraps
      valid := fun htoken => (hforward htoken).imp (validWhenGiven_iff h₁ htoken).mpr
        (validWhenGiven_iff h₂ htoken).mpr
      service := fun hclaim => (serviceInOrder_iff h₁ h₂ hclaim).mpr hwraps }

end

/-! ### Without wraps -/

theorem wraps_eq_zero {n : ℤ} (hpos : 0 < n) (hle : n ≤ longestLifetime) : wraps n = 0 := by
  unfold wraps second
  unfold longestLifetime at hle
  omega

/-- Up to the longest lifetime, everything is as it should be. -/
theorem wraps_of_le_longestLifetime {e₁ e₂ : Int64} (h₁ : 0 < e₁) (hle : e₁ ≤ e₂)
    (hbound : e₂.toInt ≤ longestLifetime) :
    WrapsInOrder e₁ e₂ ∧ WrapsForward e₁ ∧ WrapsForward e₂ := by
  have hpos : 0 < e₁.toInt := Int64.lt_iff_toInt_lt.mp h₁
  have hle' : e₁.toInt ≤ e₂.toInt := Int64.le_iff_toInt_le.mp hle
  have hzero₁ := wraps_eq_zero hpos (hle'.trans hbound)
  have hzero₂ := wraps_eq_zero (hpos.trans_le hle') hbound
  unfold WrapsInOrder WrapsForward second
  rw [hzero₁, hzero₂]
  omega

/-- The first lifetime that is too long. -/
def tooLong : Int64 := 9223372037

/-- A token set with an access token that has no claims. -/
def opaqueTokens : TokenSet where
  accessToken := "opaque"

/-- The answer to the client-credentials grant with that token. -/
def opaqueResponse : Socrate.TokenResponse where
  accessToken := "opaque"

/-- The wraps take more than the first lifetime that is too long. -/
theorem not_wrapsForward_tooLong : ¬ WrapsForward tooLong := by
  unfold WrapsForward
  decide +kernel

/-- All lifetimes up to a bound are as they should be exactly if a `time.Duration` has room for it. -/
theorem forall_longerIsLater_iff (bound : Int64) :
    (∀ (s : Session) (ts : TokenSet) (now : ℤ) (wire : Socrate.Wire) (tr : Socrate.TokenResponse)
        (sent : ℤ) (e₁ e₂ : Int64), 0 < e₁ → e₁ ≤ e₂ → e₂ ≤ bound →
      LongerIsLater s ts now wire tr sent e₁ e₂) ↔ bound.toInt ≤ longestLifetime := by
  constructor
  · intro h
    by_contra hlong
    have hle : tooLong ≤ bound := by
      rw [Int64.le_iff_toInt_le]
      exact Int.not_le.mp hlong
    have hlater := h { id := "" } opaqueTokens 0 Socrate.asciiWire {} 0 tooLong tooLong
      (by decide) (Int64.le_refl _) hle
    exact not_wrapsForward_tooLong
      ((validWhenGiven_iff (by decide) (by decide)).mp (hlater.valid (by decide)).1)
  · intro hbound s ts now wire tr sent e₁ e₂ h₁ hle hle'
    have hwraps := wraps_of_le_longestLifetime h₁ hle ((Int64.le_iff_toInt_le.mp hle').trans hbound)
    exact (longerIsLater_iff_wraps h₁ hle).mpr ⟨hwraps.1, fun _ => hwraps.2⟩

/-- For two lifetimes, the longer one gives the later expiry, and both a valid token, exactly if they
wrap in order and forward. They do if a `time.Duration` has room for them. -/
theorem longerIsLater_iff (s : Session) (ts : TokenSet) (now : ℤ) (wire : Socrate.Wire)
    (tr : Socrate.TokenResponse) (sent : ℤ) {e₁ e₂ : Int64} (h₁ : 0 < e₁) (hle : e₁ ≤ e₂) :
    (LongerIsLater s ts now wire tr sent e₁ e₂ ↔
      WrapsInOrder e₁ e₂ ∧ (ts.accessToken ≠ "" → WrapsForward e₁ ∧ WrapsForward e₂)) ∧
    (e₂.toInt ≤ longestLifetime → LongerIsLater s ts now wire tr sent e₁ e₂) :=
  ⟨longerIsLater_iff_wraps h₁ hle, fun hbound =>
    (forall_longerIsLater_iff e₂).mpr hbound s ts now wire tr sent e₁ e₂ h₁ hle (Int64.le_refl e₂)⟩

/-- A minute and an hour, for a token that is given when the clock starts. -/
theorem longerIsLater_hour :
    LongerIsLater { id := "" } opaqueTokens 0 Socrate.asciiWire opaqueResponse 0 60 3600 ∧
      WrapsInOrder 60 3600 := by
  obtain ⟨hiff, hbound⟩ := longerIsLater_iff { id := "" } opaqueTokens 0 Socrate.asciiWire opaqueResponse 0
    (show 0 < (60 : Int64) by decide) (show (60 : Int64) ≤ 3600 by decide)
  have hlater := hbound (by decide)
  exact ⟨hlater, (hiff.mp hlater).1⟩

/-- With 9223372037 seconds instead of one, session and service token expire some 292 years earlier, and
the token that the session has just been given is not valid. -/
theorem tooLong_expires_earlier : ¬ SessionInOrder { id := "" } opaqueTokens 0 1 tooLong ∧
      ¬ ValidWhenGiven { id := "" } opaqueTokens 0 tooLong ∧
      Socrate.takenExp Socrate.asciiWire opaqueResponse 0 = none ∧
      ¬ ServiceInOrder Socrate.asciiWire opaqueResponse 0 1 tooLong := by
  unfold SessionInOrder ValidWhenGiven ServiceInOrder
  decide +kernel

end Bff
