import BackendKit.GoStd.Bufio
import BackendKit.GoStd.JsonTokens
import BackendKit.Socrate.AdminPaths
import BackendKit.Socrate.TokenEndpoint

/-!
# The security event stream

`StreamSecurityEvents` (`socrate/monitoring.go`) reads server-sent events line by line: it keeps the
name and the data of the event that is being received, and calls the handler at the blank line after
it.

`standardEvents` is what the standard makes of a stream: its lines, the frames between the blank ones,
and of each frame the last event value and the data values, joined by line feeds. The loop trims the data
values and writes them without anything between them. `streamSecurityEvents_delivers` says that the
handler still gets the events of the standard, one by one: JSON does not allow a line break where it
would matter.
-/

open GoStd

namespace Socrate

/-! ### The request -/

/-- `StreamEventOptions`. -/
structure StreamEventOptions where
  severity : Bytes := []
  eventType : Bytes := []
  lastEventID : Bytes := []

/-- The filters that are set; `Encode` sorts them by their names. -/
def StreamEventOptions.query (opts : StreamEventOptions) : List (Bytes × Bytes) :=
  [(ascii "event_type", opts.eventType), (ascii "last_event_id", opts.lastEventID),
    (ascii "severity", opts.severity)].filter fun v => v.2 ≠ []

/-- What is asked of the admin service. -/
def streamRequest (opts : StreamEventOptions) : AdminRequest where
  method := "GET"
  path :=
    if 0 < opts.query.length then
      ascii "/api/admin/events/stream" ++ 0x3f :: Url.encodeValues opts.query
    else ascii "/api/admin/events/stream"

/-- What comes back: the text of the body, and the error that it ends with if it is not `io.EOF`. -/
structure StreamResponse (ε : Type) where
  status : ℕ
  body : List Char
  failure : Option ε

/-- What `readBody` leaves of the body for a message. -/
def StreamResponse.text {ε : Type} (resp : StreamResponse ε) : List Char :=
  if maxResponseBytes < byteLength resp.body ∨ resp.failure.isSome then [] else resp.body

/-! ### The loop -/

/-- `StreamEvent`. -/
structure StreamEvent where
  name : String
  data : String
  deriving DecidableEq, Repr

/-- The variables `name` and `data`. -/
structure Pending where
  name : List Char
  data : List Char
  deriving DecidableEq, Repr

/-- Nothing has been received yet. -/
def Pending.empty : Pending := ⟨[], []⟩

/-- `dispatch`: what the handler is called with. -/
def Pending.dispatch (s : Pending) : Option StreamEvent :=
  if s.data.length = 0 then none
  else some ⟨String.ofList s.name, String.ofList s.data⟩

/-- What a line that is not blank does. -/
def Pending.receive (s : Pending) (line : List Char) : Pending :=
  if "event:".toList.isPrefixOf line then { s with name := trim (line.drop 6) }
  else if "data:".toList.isPrefixOf line then { s with data := s.data ++ trim (line.drop 5) }
  else s

/-- How `StreamSecurityEvents` fails. -/
inductive StreamError (ε : Type) where
  | openStream (err : ε)
  | status (code : ℕ) (body : List Char)
  | context (err : ε)
  | handler (err : ε)
  | read (err : ScanError ε)

section Loop

variable {ε : Type}

/-- After the last line. -/
def afterScan (ctxErr : Option ε) (err : Option (ScanError ε)) : Option (StreamError ε) :=
  match err, ctxErr with
  | _, some ctx => some (.context ctx)
  | some err, none => some (.read err)
  | none, none => none

/-- The loop over the lines. `ctx` is `ctx.Err` by the number of lines that have been scanned, `handler`
knows the calls before. The calls of the handler are returned with the error. -/
def streamLoop (ctx : ℕ → Option ε) (handler : List StreamEvent → StreamEvent → Option ε)
    (err : Option (ScanError ε)) (n : ℕ) (calls : List StreamEvent) (s : Pending) :
    List (List Char) → List StreamEvent × Option (StreamError ε)
  | [] => (calls, afterScan (ctx n) err)
  | line :: lines =>
    match ctx n with
    | some ctxErr => (calls, some (.context ctxErr))
    | none =>
      if line = [] then
        match s.dispatch with
        | none => streamLoop ctx handler err (n + 1) calls .empty lines
        | some ev =>
          match handler calls ev with
          | some herr => (calls ++ [ev], some (.handler herr))
          | none => streamLoop ctx handler err (n + 1) (calls ++ [ev]) .empty lines
      else streamLoop ctx handler err (n + 1) calls (s.receive line) lines

/-- `StreamSecurityEvents`. `send` is `doWithJWT`. -/
def streamSecurityEvents (ctx : ℕ → Option ε) (send : AdminRequest → Except ε (StreamResponse ε))
    (opts : StreamEventOptions) (handler : List StreamEvent → StreamEvent → Option ε) :
    List StreamEvent × Option (StreamError ε) :=
  match send (streamRequest opts) with
  | .error err => ([], some (.openStream err))
  | .ok resp =>
    if resp.status ≠ 200 then ([], some (.status resp.status resp.text))
    else
      let scanned := scanLines (1024 * 1024) resp.body resp.failure
      streamLoop ctx handler scanned.err 0 [] .empty scanned.tokens

/-- What the lines make the loop deliver. -/
def delivered (s : Pending) : List (List Char) → List StreamEvent
  | [] => []
  | line :: lines =>
    if line = [] then s.dispatch.toList ++ delivered .empty lines else delivered (s.receive line) lines

/-- With a live context and a handler that returns nil, the loop goes through all lines. -/
theorem streamLoop_of_live {ctx : ℕ → Option ε} {handler : List StreamEvent → StreamEvent → Option ε}
    (hctx : ∀ n, ctx n = none) (hhandler : ∀ calls ev, handler calls ev = none)
    (err : Option (ScanError ε)) (n : ℕ) (calls : List StreamEvent) (s : Pending)
    (lines : List (List Char)) :
    streamLoop ctx handler err n calls s lines = (calls ++ delivered s lines, err.map .read) := by
  induction lines generalizing n calls s with
  | nil =>
    rw [streamLoop, delivered, List.append_nil, hctx]
    cases err <;> rfl
  | cons line lines ih =>
    rw [streamLoop, delivered, hctx]
    by_cases hline : line = []
    · simp only [if_pos hline]
      cases s.dispatch with
      | none => exact ih _ _ _
      | some ev =>
        simp only [hhandler]
        rw [ih, List.append_assoc]
        rfl
    · simp only [if_neg hline]
      exact ih _ _ _

end Loop

/-! ### The standard -/

/-- A byte order mark at the beginning is ignored. -/
def withoutBom (text : List Char) : List Char := if text.head? = some '\uFEFF' then text.tail else text

/-- The text cut at its line ends, which are CRLF, LF or CR. What follows the last one is not a line. -/
def cutLines : List Char → List (List Char)
  | [] => [[]]
  | '\r' :: '\n' :: rest => [] :: cutLines rest
  | '\r' :: rest => [] :: cutLines rest
  | '\n' :: rest => [] :: cutLines rest
  | c :: rest => (cutLines rest).modifyHead (c :: ·)

/-- The lines of a stream. -/
def standardLines (text : List Char) : List (List Char) := (cutLines (withoutBom text)).dropLast

/-- The lines before each blank line. -/
def frames (lines : List (List Char)) : List (List (List Char)) := (lines.splitOn []).dropLast

/-- One space in front of a value does not belong to it. -/
def dropSpace : List Char → List Char
  | ' ' :: value => value
  | value => value

/-- Name and value of a field. A comment has no name, and a line without a colon no value. -/
def field? (line : List Char) : Option (List Char × List Char) :=
  match line.dropWhile (· ≠ ':') with
  | [] => some (line, [])
  | _ :: value =>
    if line.takeWhile (· ≠ ':') = [] then none else some (line.takeWhile (· ≠ ':'), dropSpace value)

/-- The value of a field with a given name. -/
def valueOf? (name line : List Char) : Option (List Char) :=
  (field? line).bind fun f => if f.1 = name then some f.2 else none

/-- The values of a field in a frame. -/
def valuesOf (name : List Char) (frame : List (List Char)) : List (List Char) :=
  frame.filterMap (valueOf? name)

/-- The event of a frame that has data. -/
def frameEvent (frame : List (List Char)) : Option StreamEvent :=
  if valuesOf "data".toList frame = [] then none
  else some {
    name := String.ofList ((valuesOf "event".toList frame).getLastD [])
    data := String.ofList (['\n'].intercalate (valuesOf "data".toList frame)) }

/-- The events of a stream. -/
def standardEvents (text : List Char) : List StreamEvent :=
  (frames (standardLines text)).filterMap frameEvent

/-- Every carriage return is followed by a line feed. -/
def noBareCR : List Char → Bool
  | [] => true
  | '\r' :: '\n' :: rest => noBareCR rest
  | '\r' :: _ => false
  | _ :: rest => noBareCR rest

/-- A stream as the service sends it. -/
structure ProperStream (text : List Char) : Prop where
  bom : text.head? ≠ some '\uFEFF'
  lineEnds : noBareCR text = true
  short : ∀ line ∈ cutLines text, byteLength line < 1000000
  /-- A line is blank, a comment or a field with a value. -/
  fields : ∀ line ∈ cutLines text, line = [] ∨ ':' ∈ line
  /-- There is no white space around the value of an event field. -/
  names : ∀ line ∈ cutLines text, ∀ value ∈ valueOf? "event".toList line, trim value = value
  json : ∀ ev ∈ standardEvents text, (JsonText.parse ev.data).isSome = true

/-- The event has the same name, and its data the same value. -/
def SameEvent (ev standard : StreamEvent) : Prop :=
  ev.name = standard.name ∧
    ∃ j, JsonText.parse ev.data = some j ∧ JsonText.parse standard.data = some j

/-! ### Lines -/

theorem dropCR_cons {c : Char} (hc : c ≠ '\r') (line : List Char) :
    dropCR (c :: line) = c :: dropCR line := by
  unfold dropCR
  cases line with
  | nil => simp [hc]
  | cons d line =>
    rw [List.getLast?_cons_cons, List.dropLast_cons_cons]
    split <;> rfl

/-- Where every carriage return belongs to a line end, the scanner and the standard see the same lines. -/
theorem cutLines_eq {text : List Char} (h : noBareCR text = true) :
    cutLines text = (text.splitOn '\n').map dropCR := by
  fun_induction cutLines text with
  | case1 => rfl
  | case2 rest ih =>
    rw [noBareCR] at h
    rw [ih h, List.splitOn_cons_eq_if_modifyHead, List.splitOn_cons_eq_if_modifyHead]
    rfl
  | case3 rest hne ih =>
    rw [noBareCR.eq_3 rest hne] at h
    cases h
  | case4 rest ih =>
    rw [noBareCR] at h
    · rw [ih h, List.splitOn_cons_eq_if_modifyHead]
      rfl
    · exact fun _ => nofun
    · exact nofun
  | case5 c rest _ hcr hlf ih =>
    have hc : c ≠ '\r' := hcr
    rw [noBareCR] at h
    · rw [ih h, List.splitOn_cons_eq_if_modifyHead, if_neg (by simpa using hlf)]
      cases rest.splitOn '\n' with
      | nil => rfl
      | cons piece pieces => simp only [List.map_cons, List.modifyHead_cons, dropCR_cons hc]
    · exact fun _ hc' _ => hcr hc'
    · exact hcr

/-- A text does not end with a carriage return of its own. -/
theorem noBareCR_concat (text : List Char) : noBareCR (text ++ ['\r']) = false := by
  fun_induction noBareCR text with
  | case1 => rfl
  | case2 rest ih =>
    rw [List.cons_append, List.cons_append, noBareCR]
    exact ih
  | case3 rest hne =>
    cases rest with
    | nil => rfl
    | cons d rest =>
      rw [List.cons_append, List.cons_append, noBareCR]
      rintro rest' heq
      exact hne rest (by rw [(List.cons.inj heq).1])
  | case4 c rest _ hcr ih =>
    rw [List.cons_append, noBareCR]
    · exact ih
    · exact fun _ hc' _ => hcr hc'
    · exact hcr

theorem splitOn_last {text last : List Char} {lines : List (List Char)}
    (h : text.splitOn '\n' = lines ++ [last]) : ∃ front, text = front ++ last := by
  have htext : ['\n'].intercalate (text.splitOn '\n') = text := List.intercalate_splitOn ..
  rw [h] at htext
  cases lines with
  | nil => exact ⟨[], by simpa using htext.symm⟩
  | cons line lines =>
    rw [List.cons_append, intercalate_singleton_cons, List.flatMap_append, List.flatMap_singleton] at htext
    exact ⟨line ++ (lines.flatMap ('\n' :: ·) ++ ['\n']), by rw [← htext]; simp⟩

/-- The lines that are scanned: those of the standard, and what follows the last line end. -/
theorem tokens_eq {text : List Char} (h : noBareCR text = true) :
    ∃ lines last, cutLines text = lines ++ [last] ∧
      (rawLines text).map dropCR = lines ++ if last = [] then [] else [last] := by
  obtain ⟨lines, last, hpieces, hlines⟩ := rawLines_eq text
  have hlast : dropCR last = last := by
    refine if_neg fun hcr => ?_
    obtain ⟨front, hfront⟩ := splitOn_last hpieces
    obtain ⟨last', rfl⟩ := List.getLast?_eq_some_iff.mp hcr
    rw [hfront, ← List.append_assoc, noBareCR_concat] at h
    cases h
  refine ⟨lines.map dropCR, last, ?_, ?_⟩
  · rw [cutLines_eq h, hpieces, List.map_append, List.map_singleton, hlast]
  · rw [hlines, List.map_append]
    split
    · rfl
    · rw [List.map_singleton, hlast]

/-! ### Frames -/

variable {line : List Char}

/-- A line that no line end follows does not complete an event. -/
theorem delivered_concat (hline : line ≠ []) (s : Pending) (lines : List (List Char)) :
    delivered s (lines ++ [line]) = delivered s lines := by
  induction lines generalizing s with
  | nil => exact if_neg hline
  | cons first lines ih =>
    rw [List.cons_append, delivered, delivered, ih, ih]

/-- What the frames make the loop deliver: nothing is left of a frame after the blank line. -/
def deliveredFrames (s : Pending) : List (List (List Char)) → List StreamEvent
  | [] => []
  | frame :: frames =>
    (frame.foldl Pending.receive s).dispatch.toList ++ deliveredFrames .empty frames

theorem deliveredFrames_empty (frames : List (List (List Char))) :
    deliveredFrames .empty frames =
      frames.filterMap fun frame => (frame.foldl Pending.receive .empty).dispatch := by
  induction frames with
  | nil => rfl
  | cons frame frames ih =>
    rw [deliveredFrames, ih, List.filterMap_cons]
    cases (frame.foldl Pending.receive .empty).dispatch with
    | none => rfl
    | some ev => rfl

/-- The loop delivers at the blank lines. -/
theorem delivered_eq_deliveredFrames (s : Pending) (lines : List (List Char)) :
    delivered s lines = deliveredFrames s (frames lines) := by
  unfold frames
  induction lines generalizing s with
  | nil => rfl
  | cons line lines ih =>
    rw [delivered, List.splitOn_cons_eq_if_modifyHead]
    have hne : lines.splitOn [] ≠ [] := List.splitOn_ne_nil _ _
    by_cases hline : line = []
    · rw [if_pos hline, if_pos (beq_iff_eq.mpr hline), List.dropLast_cons_of_ne_nil hne, deliveredFrames, ih]
      rfl
    · rw [if_neg hline, if_neg (by simpa using hline), ih]
      -- the line belongs to the first frame, if that one is complete
      obtain ⟨frame, rest, hsplit⟩ := List.exists_cons_of_ne_nil hne
      rw [hsplit, List.modifyHead_cons]
      cases rest with
      | nil => rfl
      | cons next rest =>
        rw [List.dropLast_cons_cons, List.dropLast_cons_cons, deliveredFrames, deliveredFrames,
          List.foldl_cons]

/-! ### Fields -/

theorem valueOf?_append {x : List Char} (hx : x ≠ []) (hcolon : ':' ∉ x) (name value : List Char) :
    valueOf? name (x ++ ':' :: value) = if x = name then some (dropSpace value) else none := by
  have hall : ∀ c ∈ x, decide (c ≠ ':') = true := fun c hc => decide_eq_true fun heq => hcolon (heq ▸ hc)
  have hfield : field? (x ++ ':' :: value) = some (x, dropSpace value) := by
    unfold field?
    rw [List.dropWhile_append_of_pos hall, List.dropWhile_cons_of_neg (by simp),
      List.takeWhile_append_of_pos hall, List.takeWhile_cons_of_neg (by simp), List.append_nil]
    exact if_neg hx
  rw [valueOf?, hfield, Option.bind_some]

/-- A comment is no field. -/
theorem valueOf?_comment (name text : List Char) : valueOf? name (':' :: text) = none := by
  rfl

theorem trim_dropSpace (value : List Char) : trim (dropSpace value) = trim value := by
  unfold dropSpace
  split
  · rw [trim, trim, List.dropWhile_cons_of_pos (by decide)]
  · rfl

/-- The test of the loop for a field is that of the standard. -/
theorem map_trim_valueOf? {name : List Char} (hname : name ≠ []) (hcolon : ':' ∉ name)
    (hline : ':' ∈ line) :
    (valueOf? name line).map trim =
      if (name ++ [':']).isPrefixOf line then some (trim (line.drop (name.length + 1)))
      else none := by
  obtain ⟨x, value, rfl, hx⟩ := List.eq_append_cons_of_mem hline
  -- the name of the field is what stands before the first colon
  have hbegins : (name ++ [':']).isPrefixOf (x ++ ':' :: value) = true ↔ x = name := by
    rw [List.isPrefixOf_iff_prefix]
    constructor
    · rintro ⟨rest, hrest⟩
      rw [List.append_assoc, List.singleton_append] at hrest
      obtain ⟨y, hy, hvalue⟩ := exists_append_of_not_mem hrest hcolon
      cases y with
      | nil => rw [hy, List.append_nil]
      | cons c y =>
        obtain ⟨rfl, -⟩ := List.cons.inj hvalue
        exact absurd (hy ▸ List.mem_append_right _ List.mem_cons_self) hx
    · rintro rfl
      exact ⟨value, by simp⟩
  by_cases hempty : x = []
  · have hne : ¬ (name ++ [':']).isPrefixOf (x ++ ':' :: value) = true :=
      fun h => hname ((hbegins.mp h).symm.trans hempty)
    rw [if_neg hne, hempty, List.nil_append, valueOf?_comment]
    rfl
  · rw [valueOf?_append hempty hx]
    by_cases hxn : x = name
    · rw [if_pos hxn, if_pos (hbegins.mpr hxn), Option.map_some, trim_dropSpace, hxn]
      congr 2
      simp
    · rw [if_neg hxn, if_neg fun h => hxn (hbegins.mp h)]
      rfl

/-- A line that is not blank sets the name, or adds to the data. -/
theorem receive_eq (hline : ':' ∈ line) (s : Pending) :
    s.receive line = {
      name := ((valueOf? "event".toList line).map trim).getD s.name
      data := s.data ++ ((valueOf? "data".toList line).map trim).getD [] } := by
  have hevent : (valueOf? "event".toList line).map trim =
      if "event:".toList.isPrefixOf line then some (trim (line.drop 6)) else none :=
    map_trim_valueOf? (by decide) (by decide) hline
  have hdata : (valueOf? "data".toList line).map trim =
      if "data:".toList.isPrefixOf line then some (trim (line.drop 5)) else none :=
    map_trim_valueOf? (by decide) (by decide) hline
  rw [hevent, hdata]
  unfold Pending.receive
  split
  next h =>
    -- no line begins with both names
    have hother : ¬ "data:".toList.isPrefixOf line = true := by
      obtain ⟨rest, rfl⟩ := List.isPrefixOf_iff_prefix.mp h
      exact Bool.false_ne_true
    rw [if_neg hother]
    simp
  · split
    · simp
    · simp

theorem valuesOf_cons (name line : List Char) (frame : List (List Char)) :
    valuesOf name (line :: frame) = (valueOf? name line).toList ++ valuesOf name frame := by
  rw [valuesOf, List.filterMap_cons]
  cases valueOf? name line <;> rfl

/-- What has been received of a frame. -/
theorem foldl_receive {frame : List (List Char)} (hframe : ∀ line ∈ frame, ':' ∈ line) (s : Pending) :
    frame.foldl Pending.receive s = {
      name := ((valuesOf "event".toList frame).getLast?.map trim).getD s.name
      data := s.data ++ (valuesOf "data".toList frame).flatMap trim } := by
  induction frame generalizing s with
  | nil => exact congrArg (Pending.mk s.name) (List.append_nil _).symm
  | cons line frame ih =>
    obtain ⟨hline, hframe'⟩ := List.forall_mem_cons.mp hframe
    rw [List.foldl_cons, ih hframe', receive_eq hline, valuesOf_cons, valuesOf_cons]
    congr 1
    · -- a later value replaces the name
      cases valueOf? "event".toList line with
      | none => rfl
      | some value =>
        rw [Option.toList_some, List.singleton_append, List.getLast?_cons]
        cases (valuesOf "event".toList frame).getLast? <;> rfl
    · cases valueOf? "data".toList line with
      | none =>
        rw [Option.map_none, Option.getD_none, List.append_nil, Option.toList_none, List.nil_append]
      | some value =>
        rw [Option.map_some, Option.getD_some, Option.toList_some, List.singleton_append,
          List.flatMap_cons, List.append_assoc]

/-- The event of a frame, and what the loop makes of it. -/
theorem dispatch_rel {frame : List (List Char)} (hframe : ∀ line ∈ frame, ':' ∈ line)
    (hnames : ∀ line ∈ frame, ∀ value ∈ valueOf? "event".toList line, trim value = value)
    (hjson : ∀ ev ∈ frameEvent frame, (JsonText.parse ev.data).isSome = true) :
    Option.Rel SameEvent (frame.foldl Pending.receive .empty).dispatch (frameEvent frame) := by
  have hname : ((valuesOf "event".toList frame).getLast?.map trim).getD [] =
      (valuesOf "event".toList frame).getLastD [] := by
    rw [List.getLastD_eq_getLast?]
    cases hlast : (valuesOf "event".toList frame).getLast? with
    | none => rfl
    | some value =>
      obtain ⟨line, hline, hvalue⟩ := List.mem_filterMap.mp (List.mem_of_getLast? hlast)
      exact hnames line hline value hvalue
  rw [foldl_receive hframe]
  unfold frameEvent at hjson ⊢
  by_cases hdata : valuesOf "data".toList frame = []
  · rw [if_pos hdata, hdata]
    exact .none
  · rw [if_neg hdata] at hjson ⊢
    obtain ⟨j, hj⟩ := Option.isSome_iff_exists.mp (hjson _ rfl)
    have htrimmed := JsonText.parse_flatMap_trim hj
    have hne : (valuesOf "data".toList frame).flatMap trim ≠ [] := by
      intro hnil
      rw [hnil] at htrimmed
      cases htrimmed
    have hdispatch : ∀ (name data : List Char), data ≠ [] →
        Pending.dispatch ⟨name, data⟩ = some ⟨String.ofList name, String.ofList data⟩ :=
      fun name data hdata => if_neg fun hlength => hdata (List.length_eq_zero_iff.mp hlength)
    have hnil : Pending.empty.data ++ (valuesOf "data".toList frame).flatMap trim =
        (valuesOf "data".toList frame).flatMap trim := rfl
    rw [hnil, hdispatch _ _ hne]
    exact .some ⟨congrArg String.ofList hname, j, htrimmed, hj⟩

theorem forall₂_filterMap {α β γ : Type} {R : β → γ → Prop} {f : α → Option β} {g : α → Option γ}
    {l : List α} (h : ∀ a ∈ l, Option.Rel R (f a) (g a)) :
    List.Forall₂ R (l.filterMap f) (l.filterMap g) := by
  induction l with
  | nil => exact .nil
  | cons a l ih =>
    obtain ⟨ha, hl⟩ := List.forall_mem_cons.mp h
    rw [List.filterMap_cons, List.filterMap_cons]
    generalize f a = b at ha
    generalize g a = c at ha
    cases ha with
    | none => exact ih hl
    | some hR => exact .cons hR (ih hl)

theorem mem_of_mem_splitOn (lines : List (List Char)) :
    ∀ frame ∈ lines.splitOn [], ∀ line ∈ frame, line ∈ lines ∧ line ≠ [] := by
  induction lines with
  | nil =>
    intro frame hframe line hline
    rw [List.splitOn_nil, List.mem_singleton] at hframe
    subst hframe
    cases hline
  | cons first lines ih =>
    rw [List.splitOn_cons_eq_if_modifyHead]
    split
    · intro frame hframe line hline
      rcases List.mem_cons.mp hframe with rfl | hframe
      · cases hline
      · exact (ih frame hframe line hline).imp_left (List.mem_cons_of_mem _)
    next hfirst =>
      obtain ⟨head, rest, hsplit⟩ := List.exists_cons_of_ne_nil (List.splitOn_ne_nil [] lines)
      rw [hsplit] at ih ⊢
      obtain ⟨ihhead, ihrest⟩ := List.forall_mem_cons.mp ih
      intro frame hframe line hline
      rcases List.mem_cons.mp hframe with rfl | hframe
      · rcases List.mem_cons.mp hline with rfl | hline
        · exact ⟨List.mem_cons_self, by simpa using hfirst⟩
        · exact (ihhead line hline).imp_left (List.mem_cons_of_mem _)
      · exact (ihrest frame hframe line hline).imp_left (List.mem_cons_of_mem _)

/-- The lines of the frames are lines that are not blank. -/
theorem mem_of_mem_frame {lines frame : List (List Char)} (hframe : frame ∈ frames lines)
    (hline : line ∈ frame) : line ∈ lines ∧ line ≠ [] :=
  mem_of_mem_splitOn lines frame ((List.dropLast_sublist _).subset hframe) line hline

namespace ProperStream

variable {text : List Char}

theorem withoutBom_eq (h : ProperStream text) : withoutBom text = text := if_neg h.bom

/-- Every line fits into the buffer of the scanner. -/
theorem fits (h : ProperStream text) : ∀ line ∈ text.splitOn '\n', byteLength line < 1024 * 1024 := by
  intro line hline
  have hmem : dropCR line ∈ cutLines text := by
    rw [cutLines_eq h.lineEnds]
    exact List.mem_map_of_mem hline
  have hshort := h.short _ hmem
  have hle := byteLength_le_dropCR line
  omega

/-- The loop delivers the events of the standard. -/
theorem delivered_rel (h : ProperStream text) :
    List.Forall₂ SameEvent (delivered .empty ((rawLines text).map dropCR)) (standardEvents text) := by
  obtain ⟨lines, last, hcut, htokens⟩ := tokens_eq h.lineEnds
  have hlines : standardLines text = lines := by
    rw [standardLines, h.withoutBom_eq, hcut, List.dropLast_concat]
  have hmem : ∀ line ∈ lines, line ∈ cutLines text := fun line hline =>
    hcut ▸ List.mem_append_left _ hline
  have hdelivered : delivered .empty ((rawLines text).map dropCR) = delivered .empty lines := by
    rw [htokens]
    split
    · rw [List.append_nil]
    next hlast => exact delivered_concat hlast _ _
  rw [hdelivered, delivered_eq_deliveredFrames, deliveredFrames_empty, standardEvents, hlines]
  refine forall₂_filterMap fun frame hframe => dispatch_rel ?_ ?_ ?_
  · intro line hline
    obtain ⟨hin, hne⟩ := mem_of_mem_frame hframe hline
    exact (h.fields line (hmem line hin)).resolve_left hne
  · exact fun line hline => h.names line (hmem line (mem_of_mem_frame hframe hline).1)
  · intro ev hev
    refine h.json ev ?_
    rw [standardEvents, hlines]
    exact List.mem_filterMap.mpr ⟨frame, hframe, hev⟩

end ProperStream

/-- With a live context and a handler that returns nil, the handler is called with the events of the
standard, in their order, and the stream is read to its end. Only an error of the connection is
returned. -/
theorem streamSecurityEvents_delivers {ε : Type} {ctx : ℕ → Option ε}
    {send : AdminRequest → Except ε (StreamResponse ε)} {opts : StreamEventOptions}
    {handler : List StreamEvent → StreamEvent → Option ε} {text : List Char} {failure : Option ε}
    (hctx : ∀ n, ctx n = none) (hhandler : ∀ calls ev, handler calls ev = none)
    (hsend : send (streamRequest opts) = .ok ⟨200, text, failure⟩) (hproper : ProperStream text) :
    ∃ calls, streamSecurityEvents ctx send opts handler = (calls, failure.map (.read ∘ .read)) ∧
      List.Forall₂ SameEvent calls (standardEvents text) := by
  refine ⟨_, ?_, hproper.delivered_rel⟩
  rw [streamSecurityEvents, hsend]
  simp only [ne_eq, not_true, if_false]
  rw [scanLines_of_lt failure hproper.fits, streamLoop_of_live hctx hhandler, List.nil_append,
    Option.map_map]

/-- A stream with an event over three lines, a comment, an event without a name, one without data, and
one that is not complete. -/
def splitStream : List Char := String.toList <|
  "event: security_event\r\ndata: \x7b\"roles\":\r\ndata:   [1,\r\ndata: 2]\x7d\r\n\r\n" ++
  ": ping\nid: 7\ndata:true\n\nevent: heartbeat\n\ndata: 0\n"

theorem properStream_splitStream : ProperStream splitStream := by
  obtain ⟨hbom, hlineEnds, hlines, hjson⟩ : splitStream.head? ≠ some '\uFEFF' ∧
      noBareCR splitStream = true ∧
      (∀ line ∈ cutLines splitStream, byteLength line < 1000000 ∧ (line = [] ∨ ':' ∈ line) ∧
        ∀ value ∈ valueOf? "event".toList line, trim value = value) ∧
      ∀ ev ∈ standardEvents splitStream, (JsonText.parse ev.data).isSome = true := by
    decide +kernel
  exact {
    bom := hbom
    lineEnds := hlineEnds
    short := fun line hline => (hlines line hline).1
    fields := fun line hline => (hlines line hline).2.1
    names := fun line hline => (hlines line hline).2.2
    json := hjson }

/-- What the admin service answers with. -/
def sendSplitStream (_ : AdminRequest) : Except String (StreamResponse String) :=
  .ok ⟨200, splitStream, none⟩

theorem streamSecurityEvents_delivers_split :
    standardEvents splitStream =
        [⟨"security_event", "\x7b\"roles\":\n  [1,\n2]\x7d"⟩, ⟨"", "true"⟩] ∧
      ∃ calls,
        streamSecurityEvents (fun _ => none) sendSplitStream {} (fun _ _ => none) = (calls, none) ∧
        List.Forall₂ SameEvent calls (standardEvents splitStream) := by
  have hsend : sendSplitStream (streamRequest {}) = .ok ⟨200, splitStream, none⟩ := rfl
  refine ⟨by decide +kernel, ?_⟩
  exact streamSecurityEvents_delivers (fun _ => rfl) (fun _ _ => rfl) hsend properStream_splitStream

end Socrate
