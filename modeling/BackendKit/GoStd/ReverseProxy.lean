import BackendKit.GoStd.Http
import BackendKit.GoStd.Net
import Mathlib.Data.List.Basic

/-!
# The header that a reverse proxy sends

What `httputil.ReverseProxy.ServeHTTP` does to the header of a request that it forwards, when it has
a `Director`: the director runs first, then the hop-by-hop fields are removed, those that the client
lists in its `Connection` field included, and then the proxy adds its own.

* `removeHopByHopHeaders` and what is left of a field (`values_removeHopByHopHeaders`);
* `reverseProxyHeader`: the whole, `none` for a request that is refused;
* `values_reverseProxyHeader`: every field that the proxy does not set itself is what the director
  left of it, unless it is hop-by-hop.
-/

namespace GoStd

/-- The fields that are meant for the next hop only (RFC 2616, section 13.5.1), as the proxy lists
them. -/
def hopHeaders : List String :=
  ["Connection", "Proxy-Connection", "Keep-Alive", "Proxy-Authenticate", "Proxy-Authorization", "Te",
    "Trailer", "Transfer-Encoding", "Upgrade"]

/-- The names in the `Connection` field. -/
def connectionNames (h : Header) : List String :=
  ((h.values "Connection").flatMap fun f => (f.toList.splitOn ',').map trimChars).filterMap fun name =>
    if name = [] then none else some (String.ofList name)

/-- `removeHopByHopHeaders`. -/
def removeHopByHopHeaders (h : Header) : Header :=
  hopHeaders.foldl Header.del ((connectionNames h).foldl Header.del h)

/-- `trimOWS`. -/
def trimOWS (cs : List Char) : List Char :=
  let blank := fun c : Char => c == ' ' || c == '\t'
  ((cs.dropWhile blank).reverse.dropWhile blank).reverse

/-- `httpguts.HeaderValuesContainsToken`, for a token in lower case. -/
def headerValuesContainsToken (values : List String) (token : String) : Bool :=
  values.any fun v => (v.toList.splitOn ',').any fun part =>
    (trimOWS part).all (·.toNat < 0x80) && (trimOWS part).map Char.toLower == token.toList

/-- The protocol that the client wants to switch to, `""` for none. -/
def upgradeType (h : Header) : String :=
  if headerValuesContainsToken (h.values "Connection") "upgrade" then h.get "Upgrade" else ""

/-- `ascii.IsPrint`. -/
def isPrint (s : String) : Bool := s.toList.all fun c => 0x20 ≤ c.toNat && c.toNat ≤ 0x7e

/-- The client's address goes to the end of `X-Forwarded-For`. -/
def addForwardedFor (h : Header) (remoteAddr : Bytes) : Header :=
  match Net.splitHostPort remoteAddr with
  | none => h
  | some (host, _) =>
    let clientIP := String.ofList (host.map Char.ofUInt8)
    let prior := h.values "X-Forwarded-For"
    h.set "X-Forwarded-For"
      (if prior = [] then clientIP else ", ".intercalate prior ++ ", " ++ clientIP)

/-- Some fields of the hop are put back: trailers that the client can take, and an upgrade. -/
def readdHopHeaders (te : List String) (reqUpType : String) (h : Header) : Header :=
  let h := if headerValuesContainsToken te "trailers" then h.set "Te" "trailers" else h
  if reqUpType ≠ "" then (h.set "Connection" "Upgrade").set "Upgrade" reqUpType else h

/-- No `User-Agent` of the proxy's own is added. -/
def keepUserAgent (h : Header) : Header :=
  if h.values "User-Agent" = [] then h.set "User-Agent" "" else h

/-- What `ServeHTTP` makes of a header, by way of the director. A request that asks for a protocol
with unprintable characters is refused. -/
def reverseProxyHeader (director : Header → Header) (remoteAddr : Bytes) (h : Header) :
    Option Header :=
  let out := director h
  let reqUpType := upgradeType out
  if isPrint reqUpType then
    let out := readdHopHeaders (h.values "Te") reqUpType (removeHopByHopHeaders out)
    some (keepUserAgent (addForwardedFor out remoteAddr))
  else none

/-! ### What is left of a field -/

theorem values_del (h : Header) (name key : String) :
    (h.del name).values key = if key = canonicalKey name then [] else h.values key := by
  by_cases heq : key = canonicalKey name
  · rw [if_pos heq, heq]
    exact Function.update_self ..
  · rw [if_neg heq]
    exact Function.update_of_ne heq ..

theorem values_foldl_del (names : List String) (h : Header) (key : String) :
    (names.foldl Header.del h).values key =
      if key ∈ names.map canonicalKey then [] else h.values key := by
  induction names generalizing h with
  | nil => rfl
  | cons name names ih =>
    rw [List.foldl_cons, ih, values_del]
    simp only [List.map_cons, List.mem_cons]
    by_cases hkey : key = canonicalKey name
    · simp [hkey]
    · simp only [hkey, if_false, false_or]

/-- A field that is removed: hop-by-hop, or listed by the client. -/
def IsHopByHop (h : Header) (key : String) : Prop :=
  key ∈ hopHeaders.map canonicalKey ∨ key ∈ (connectionNames h).map canonicalKey

instance (h : Header) (key : String) : Decidable (IsHopByHop h key) :=
  inferInstanceAs (Decidable (_ ∨ _))

theorem values_removeHopByHopHeaders (h : Header) (key : String) :
    (removeHopByHopHeaders h).values key = if IsHopByHop h key then [] else h.values key := by
  rw [removeHopByHopHeaders, values_foldl_del, values_foldl_del]
  by_cases hhop : key ∈ hopHeaders.map canonicalKey
  · rw [if_pos hhop, if_pos (show IsHopByHop h key from .inl hhop)]
  by_cases hlisted : key ∈ (connectionNames h).map canonicalKey
  · rw [if_neg hhop, if_pos hlisted, if_pos (show IsHopByHop h key from .inr hlisted)]
  · rw [if_neg hhop, if_neg hlisted,
      if_neg (show ¬ IsHopByHop h key from fun h' => h'.elim hhop hlisted)]

/-- A field that the proxy sets itself. -/
def IsProxyField (key : String) : Prop :=
  key = "Te" ∨ key = "Connection" ∨ key = "Upgrade" ∨ key = "X-Forwarded-For" ∨ key = "User-Agent"

instance (key : String) : Decidable (IsProxyField key) := inferInstanceAs (Decidable (_ ∨ _))

/-- These names are canonical. -/
theorem canonicalKey_of_isProxyField {key : String} (h : IsProxyField key) :
    canonicalKey key = key := by
  rw [canonicalKey, tokenChars_eq]
  rcases h with rfl | rfl | rfl | rfl | rfl <;> decide +kernel

variable {h : Header} {remoteAddr : Bytes} {director : Header → Header} {out : Header}

/-- Setting one of these fields leaves the others alone. -/
theorem values_set_proxyField {key field : String} (value : String) (hfield : IsProxyField field)
    (hne : key ≠ field) :
    (h.set field value).values key = h.values key := by
  apply Header.values_set_of_ne
  rw [canonicalKey_of_isProxyField hfield]
  exact hne

theorem values_readdHopHeaders {key : String} (te : List String) (reqUpType : String)
    (hte : key ≠ "Te") (hconnection : key ≠ "Connection") (hupgrade : key ≠ "Upgrade") :
    (readdHopHeaders te reqUpType h).values key = h.values key := by
  have hfirst : (if headerValuesContainsToken te "trailers" then h.set "Te" "trailers" else h).values
      key = h.values key := by
    split
    · exact values_set_proxyField _ (.inl rfl) hte
    · rfl
  unfold readdHopHeaders
  dsimp only
  split
  · rw [values_set_proxyField _ (.inr (.inr (.inl rfl))) hupgrade,
      values_set_proxyField _ (.inr (.inl rfl)) hconnection, hfirst]
  · exact hfirst

theorem values_keepUserAgent {key : String} (hne : key ≠ "User-Agent") :
    (keepUserAgent h).values key = h.values key := by
  unfold keepUserAgent
  split
  · exact values_set_proxyField _ (.inr (.inr (.inr (.inr rfl)))) hne
  · rfl

theorem values_addForwardedFor {key : String} (remoteAddr : Bytes) (hne : key ≠ "X-Forwarded-For") :
    (addForwardedFor h remoteAddr).values key = h.values key := by
  unfold addForwardedFor
  split
  · rfl
  · exact values_set_proxyField _ (.inr (.inr (.inr (.inl rfl)))) hne

/-- The header of a request that is not refused. -/
theorem reverseProxyHeader_eq_some (hout : reverseProxyHeader director remoteAddr h = some out) :
    out = keepUserAgent (addForwardedFor (readdHopHeaders (h.values "Te") (upgradeType (director h))
      (removeHopByHopHeaders (director h))) remoteAddr) := by
  unfold reverseProxyHeader at hout
  dsimp only at hout
  split at hout
  · exact (Option.some.inj hout).symm
  · cases hout

/-- A field that the proxy does not set is what the director left, unless it is removed. -/
theorem values_reverseProxyHeader (hout : reverseProxyHeader director remoteAddr h = some out)
    {key : String} (hkey : ¬ IsProxyField key) :
    out.values key = if IsHopByHop (director h) key then [] else (director h).values key := by
  simp only [IsProxyField, not_or] at hkey
  obtain ⟨hte, hconnection, hupgrade, hforwarded, hagent⟩ := hkey
  rw [reverseProxyHeader_eq_some hout, values_keepUserAgent hagent,
    values_addForwardedFor _ hforwarded, values_readdHopHeaders _ _ hte hconnection hupgrade,
    values_removeHopByHopHeaders]

/-- What becomes of the addresses in `X-Forwarded-For`. -/
def forwardedForOf (remoteAddr : Bytes) (prior : List String) : List String :=
  match Net.splitHostPort remoteAddr with
  | none => prior
  | some (host, _) =>
    let clientIP := String.ofList (host.map Char.ofUInt8)
    [if prior = [] then clientIP else ", ".intercalate prior ++ ", " ++ clientIP]

/-- The client's address is the last one, after those that the director left. -/
theorem forwardedFor_reverseProxyHeader (hout : reverseProxyHeader director remoteAddr h = some out) :
    out.values "X-Forwarded-For" = forwardedForOf remoteAddr
      (if IsHopByHop (director h) "X-Forwarded-For" then []
        else (director h).values "X-Forwarded-For") := by
  have hadd : ∀ h' : Header, (addForwardedFor h' remoteAddr).values "X-Forwarded-For" =
      forwardedForOf remoteAddr (h'.values "X-Forwarded-For") := by
    intro h'
    unfold addForwardedFor forwardedForOf
    split
    · rfl
    · exact Header.values_set_self (canonicalKey_of_isProxyField (.inr (.inr (.inr (.inl rfl)))))
  rw [reverseProxyHeader_eq_some hout, values_keepUserAgent (by decide), hadd,
    values_readdHopHeaders _ _ (by decide) (by decide) (by decide), values_removeHopByHopHeaders]

end GoStd
