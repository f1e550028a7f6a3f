import Mathlib.Data.Int.Notation
import Mathlib.Data.Nat.Notation
import Mathlib.Logic.Basic

/-!
# The status that is logged and counted

`Logger` and `Metrics` (`httpware/logger.go`, `httpware/metrics.go`) install a `statusRecorder` around
the response writer and report its `statusCode` when the handler returns. `Recover`
(`httpware/recover.go`) answers a panic with a 500.

The recorder overwrites its code with every `WriteHeader` and does not see that a `Write` sends a 200,
while `net/http` takes the first call that counts and ignores the rest. `observed_eq_sent_iff` says for
which calls the two agree.
-/

namespace HttpWare

/-- A call on a response writer. -/
inductive WriterCall where
  | writeHeader (code : ℤ)
  | write
  deriving DecidableEq, Repr

/-- `http.StatusOK`. -/
def statusOK : ℤ := 200

/-- The status that a call sends if none has been sent: informational codes other than 101 do not
count, and a body implies a 200. -/
def WriterCall.fixes : WriterCall → Option ℤ
  | .writeHeader code => if code = 101 ∨ 200 ≤ code then some code else none
  | .write => some statusOK

/-- A response writer: the server's, with the status that it has sent, in `n` recorders. -/
inductive Writer : ℕ → Type where
  | server (status : Option ℤ) : Writer 0
  /-- A `statusRecorder`. -/
  | recorder {n : ℕ} (statusCode : ℤ) (w : Writer n) : Writer (n + 1)

namespace Writer

variable {n : ℕ}

/-- A call on a writer. A recorder passes it on to the writer inside. -/
def call : {n : ℕ} → Writer n → WriterCall → Writer n
  | _, server status, c => server (status.or c.fixes)
  | _, recorder _ w, .writeHeader code => recorder code (w.call (.writeHeader code))
  | _, recorder statusCode w, .write => recorder statusCode (w.call .write)

/-- Some calls, one after the other. -/
def after (w : Writer n) (calls : List WriterCall) : Writer n := calls.foldl call w

/-- The status that the client gets: a 200 if the handler has sent none. -/
def sent : {n : ℕ} → Writer n → ℤ
  | _, server status => status.getD statusOK
  | _, recorder _ w => w.sent

end Writer

/-- The calls return: as long as no status has been sent, `WriteHeader` panics on a code outside
100..999. -/
def returns : List WriterCall → Bool
  | [] | .write :: _ => true
  | .writeHeader code :: rest =>
    decide (100 ≤ code ∧ code ≤ 999) && (decide (code = 101 ∨ 200 ≤ code) || returns rest)

/-- What a handler does: the calls that return, and whether it panics after them. A `WriteHeader` that
panics is such a panic: no recorder reports its code, as `Recover` overwrites it. -/
structure HandlerRun where
  calls : List WriterCall
  panics : Bool
  returns_calls : returns calls = true

/-- The middlewares. -/
inductive Middleware where
  | logger
  | metrics
  | recover
  deriving DecidableEq, Repr

/-- The calls of `http.Error(w, "internal server error", http.StatusInternalServerError)`. -/
def recoverCalls : List WriterCall := [.writeHeader 500, .write]

/-- What has come of a request at some point of the stack. -/
structure Served (n : ℕ) where
  writer : Writer n
  /-- The status codes that have been logged or counted. -/
  observed : List ℤ
  panicked : Bool

/-- Run the next handler with a recorder and report its code. A panic passes over the report. -/
def recordStatus {n : ℕ} (next : Writer (n + 1) → Served (n + 1)) (w : Writer n) : Served n :=
  let out := next (.recorder statusOK w)
  match out.writer with
  | .recorder statusCode w =>
    { writer := w
      observed := if out.panicked then out.observed else out.observed ++ [statusCode]
      panicked := out.panicked }

/-- A request through a stack of middlewares, the outermost first. -/
def serve (h : HandlerRun) : {n : ℕ} → List Middleware → Writer n → Served n
  | _, [], w => { writer := w.after h.calls, observed := [], panicked := h.panics }
  | _, .logger :: rest, w => recordStatus (serve h rest) w
  | _, .metrics :: rest, w => recordStatus (serve h rest) w
  | _, .recover :: rest, w =>
    let out := serve h rest w
    if out.panicked then
      { writer := out.writer.after recoverCalls, observed := out.observed, panicked := false }
    else out

/-! ### What recorder and server make of the calls -/

/-- The code of the last `WriteHeader`. -/
def lastHeader : List WriterCall → Option ℤ
  | [] => none
  | .writeHeader code :: rest => (lastHeader rest).or (some code)
  | .write :: rest => lastHeader rest

/-- The status of the first call that counts. -/
def fixedStatus (calls : List WriterCall) : Option ℤ := calls.findSome? WriterCall.fixes

namespace Writer

variable {n : ℕ}

/-- A recorder keeps the last code. -/
theorem after_recorder (statusCode : ℤ) (w : Writer n) (calls : List WriterCall) :
    (recorder statusCode w).after calls =
      recorder ((lastHeader calls).getD statusCode) (w.after calls) := by
  induction calls generalizing statusCode w with
  | nil => rfl
  | cons c calls ih =>
    cases c with
    | write => exact ih statusCode (w.call .write)
    | writeHeader code =>
      refine (ih code (w.call (.writeHeader code))).trans ?_
      rw [lastHeader]
      cases lastHeader calls <;> rfl

/-- The server keeps the first status. -/
theorem after_server (status : Option ℤ) (calls : List WriterCall) :
    (server status).after calls = server (status.or (fixedStatus calls)) := by
  induction calls generalizing status with
  | nil => rw [fixedStatus, List.findSome?_nil, Option.or_none]; rfl
  | cons c calls ih =>
    refine (ih (status.or c.fixes)).trans ?_
    rw [Option.or_assoc, fixedStatus, fixedStatus, List.findSome?_cons]
    cases c.fixes <;> rfl

theorem after_append (w : Writer n) (calls more : List WriterCall) :
    w.after (calls ++ more) = (w.after calls).after more :=
  List.foldl_append

end Writer

/-! ### Whole requests -/

/-- The calls that have been made while a panic is, or is no longer, on its way: a panic that is over
has been answered. -/
def HandlerRun.made (h : HandlerRun) (panicking : Bool) : List WriterCall :=
  if h.panics && !panicking then h.calls ++ recoverCalls else h.calls

/-- What a part of the stack does to a writer and what it reports is determined by the calls. -/
structure Traces {n : ℕ} (h : HandlerRun) (w : Writer n) (out : Served n) : Prop where
  panics : out.panicked = true → h.panics = true
  writer : out.writer = w.after (h.made out.panicked)
  /-- All recorders that report agree, and none reports while a panic is on its way. -/
  observed : ∀ code ∈ out.observed,
    out.panicked = false ∧ code = (lastHeader (h.made false)).getD statusOK

section

variable {h : HandlerRun} {n : ℕ} {w : Writer n}

theorem traces_recordStatus {next : Writer (n + 1) → Served (n + 1)}
    (hnext : Traces h (.recorder statusOK w) (next (.recorder statusOK w))) :
    Traces h w (recordStatus next w) := by
  unfold recordStatus
  generalize next (.recorder statusOK w) = out at hnext
  obtain ⟨hpanics, hwriter, hobserved⟩ := hnext
  rw [Writer.after_recorder] at hwriter
  simp only [hwriter]
  refine ⟨hpanics, rfl, fun code hcode => ?_⟩
  cases hout : out.panicked with
  | true =>
    rw [hout] at hcode
    exact absurd (hobserved code hcode).1 (by simp [hout])
  | false =>
    simp only [hout, Bool.false_eq_true, if_false, List.mem_append, List.mem_singleton] at hcode
    refine ⟨rfl, ?_⟩
    rcases hcode with hcode | rfl
    · exact (hobserved code hcode).2
    · rfl

theorem traces_recover {out : Served n} (hout : Traces h w out) (hpanicked : out.panicked = true) :
    Traces h w
      { writer := out.writer.after recoverCalls, observed := out.observed, panicked := false } := by
  have hpanics := hout.panics hpanicked
  refine ⟨nofun, ?_, fun code hcode => ?_⟩
  · simp only [hout.writer, hpanicked, HandlerRun.made, hpanics, Bool.not_true, Bool.and_false,
      Bool.not_false, Bool.and_true, Bool.false_eq_true, if_true, if_false, Writer.after_append]
  · exact absurd (hout.observed code hcode).1 (by simp [hpanicked])

/-- Every stack is determined by the calls. -/
theorem traces_serve (stack : List Middleware) (w : Writer n) : Traces h w (serve h stack w) := by
  induction stack generalizing n with
  | nil =>
    refine ⟨id, ?_, nofun⟩
    show w.after h.calls = w.after (h.made h.panics)
    rw [HandlerRun.made]
    cases h.panics <;> rfl
  | cons m rest ih =>
    cases m with
    | logger => exact traces_recordStatus (ih _)
    | metrics => exact traces_recordStatus (ih _)
    | recover =>
      have hrest := ih w
      show Traces h w (if (serve h rest w).panicked then _ else _)
      split
      · rename_i hpanicked
        exact traces_recover hrest hpanicked
      · exact hrest

end

/-- For every stack of middlewares and everything that a handler does: the status codes that are logged
and counted are the status that the client gets exactly if the code of the last `WriteHeader` is the
one that was sent. After a panic the calls of `Recover` belong to them. -/
theorem observed_eq_sent_iff (stack : List Middleware) (h : HandlerRun)
    (hobserved : (serve h stack (.server none)).observed ≠ []) :
    (∀ code ∈ (serve h stack (.server none)).observed,
        code = (serve h stack (.server none)).writer.sent) ↔
      (lastHeader (h.made false)).getD statusOK = (fixedStatus (h.made false)).getD statusOK := by
  have htraces : Traces h (.server none) (serve h stack (.server none)) := traces_serve stack _
  obtain ⟨first, hfirst⟩ := List.exists_mem_of_ne_nil _ hobserved
  obtain ⟨hpanicked, hcode⟩ := htraces.observed first hfirst
  have hsent : (serve h stack (.server none)).writer.sent =
      (fixedStatus (h.made false)).getD statusOK := by
    rw [htraces.writer, hpanicked, Writer.after_server]
    rfl
  rw [hsent]
  constructor
  · intro hall
    rw [← hcode]
    exact hall first hfirst
  · intro heq code hmem
    rw [(htraces.observed code hmem).2, heq]

/-- A handler that refuses a request, behind both recorders. -/
theorem observed_eq_sent_iff_refused :
    let h : HandlerRun := ⟨[.writeHeader 404, .write], false, rfl⟩
    let stack : List Middleware := [.metrics, .logger, .recover]
    (serve h stack (.server none)).observed = [404, 404] ∧
      ((∀ code ∈ (serve h stack (.server none)).observed,
          code = (serve h stack (.server none)).writer.sent) ↔
        (lastHeader (h.made false)).getD statusOK = (fixedStatus (h.made false)).getD statusOK) :=
  ⟨by decide, observed_eq_sent_iff _ _ (by decide)⟩

/-- A handler that panics after it has begun its answer: the client has got a 200, logged is a 500.
Without a panic, a header after the body and a lone informational header are recorded as well. -/
theorem observed_ne_sent_of_panic :
    let panicking := serve ⟨[.write], true, rfl⟩ [.logger, .recover] (.server none)
    let superfluous := serve ⟨[.write, .writeHeader 404], false, rfl⟩ [.metrics] (.server none)
    let informational := serve ⟨[.writeHeader 103], false, rfl⟩ [.logger] (.server none)
    (panicking.observed = [500] ∧ panicking.writer.sent = 200) ∧
      (superfluous.observed = [404] ∧ superfluous.writer.sent = 200) ∧
      (informational.observed = [103] ∧ informational.writer.sent = 200) := by
  decide

end HttpWare
