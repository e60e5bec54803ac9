import Scriptlet.Host
import Scriptlet.Proofs.Reachable
import Scriptlet.Proofs.Rounds
import Scriptlet.Proofs.Sessions

/-!
# The prompt is a session

At the prompt every line of the input is run as a source of its own.  What is shown there is what a
session shows whose sources are the lines of the input, up to the first one that is no text: the
mark before each line and before the end, between the marks what each run has written, and on the
second channel the errors, each behind the trees of its program if they are asked for.

The prompt gives every line a machine with a new sink, whereas a session goes on with the sink it
has.  The two machines have the same variables all the time, and the sink of the session is that of
the prompt with something in it before, which no program can notice.

* `Prompt.Cut`, `exists_cut`, `Cut.lines` : an input is cut after each newline, in one way only;
* `Prompt.Texts`, `Prompt.Sources` : the texts of the lines, up to the first line that is none;
* `turn_of_text`, `turn_of_broken` : what happens on one line at the prompt;
* `session_more`, `Run.output` : sessions with more rounds, and what each run has written;
* `Prompt.shown` : what is to be shown of a session;
* `respond_shows`, `answer_shows` : one line at the prompt is one step of the session, and so are
  all of them;
* `prompt_is_session` : **the prompt shows what the session of its lines shows.**
-/

namespace Scriptlet

/-! ### Lines of bytes -/

namespace Prompt

/-- The bytes before a newline, without a carriage return at their end. -/
def withoutReturn (body : List UInt8) : List UInt8 :=
  if body.getLast? = some 13 then body.dropLast else body

/-- An input consists of these lines, each with a newline, and a rest without one. -/
structure Cut (input : List UInt8) (ended : List (List UInt8)) (rest : List UInt8) : Prop where
  /-- Together they are the input. -/
  whole : input = ended.flatMap (· ++ [10]) ++ rest
  /-- No line goes on behind a newline. -/
  ended_plain : ∀ body ∈ ended, 10 ∉ body
  /-- Nor does the rest. -/
  rest_plain : 10 ∉ rest

/-- The lines without their endings; the rest is a line unless it is empty. -/
def bodies (ended : List (List UInt8)) (rest : List UInt8) : List (List UInt8) :=
  ended.map withoutReturn ++ if rest = [] then [] else [rest]

theorem exists_cut (input : List UInt8) : ∃ ended rest, Cut input ended rest := by
  induction input with
  | nil => exact ⟨[], [], rfl, nofun, nofun⟩
  | cons b input ih =>
    obtain ⟨ended, rest, rfl, hended, hrest⟩ := ih
    by_cases hb : b = 10
    · subst hb
      exact ⟨[] :: ended, rest, rfl, List.forall_mem_cons.2 ⟨nofun, hended⟩, hrest⟩
    · have hplain {body : List UInt8} (h : 10 ∉ body) : 10 ∉ b :: body :=
        List.not_mem_cons_of_ne_of_not_mem (Ne.symm hb) h
      cases ended with
      | nil => exact ⟨[], b :: rest, rfl, nofun, hplain hrest⟩
      | cons body ended =>
        rw [List.forall_mem_cons] at hended
        exact ⟨(b :: body) :: ended, rest, rfl,
          List.forall_mem_cons.2 ⟨hplain hended.1, hended.2⟩, hrest⟩

variable {body rest input : List UInt8} {ended : List (List UInt8)}

theorem lines_append_newline (h : 10 ∉ body) :
    lines (body ++ 10 :: rest) = (body ++ [10]) :: lines rest := by
  induction body with
  | nil => rfl
  | cons b body ih =>
    rw [List.mem_cons, not_or] at h
    rw [List.cons_append, lines, if_neg (Ne.symm h.1), ih h.2]
    rfl

theorem lines_of_plain (h : 10 ∉ rest) : lines rest = if rest = [] then [] else [rest] := by
  induction rest with
  | nil => rfl
  | cons b rest ih =>
    rw [List.mem_cons, not_or] at h
    rw [lines, if_neg (Ne.symm h.1), ih h.2]
    cases rest <;> rfl

theorem withoutEnding_newline : withoutEnding (body ++ [10]) = withoutReturn body := by
  obtain rfl | ⟨body, b, rfl⟩ := List.eq_nil_or_concat' body
  · rfl
  · unfold withoutEnding withoutReturn
    rw [List.getLast?_concat, List.dropLast_concat, List.reverse_concat, List.reverse_concat]
    by_cases hb : b = 13
    · subst hb
      rw [if_pos rfl]
      exact body.reverse_reverse
    · rw [if_neg (hb ∘ Option.some.inj)]
      split
      · rename_i heq
        cases heq
        exact absurd rfl hb
      · rename_i heq
        cases heq
        rw [List.reverse_cons, List.reverse_reverse]
      · rename_i hne
        exact absurd rfl (hne _)

theorem withoutEnding_of_plain (h : 10 ∉ rest) : withoutEnding rest = rest := by
  have hreverse {more : List UInt8} (heq : rest.reverse = 10 :: more) : 10 ∈ rest :=
    List.mem_reverse.1 (heq ▸ List.mem_cons_self)
  unfold withoutEnding
  split
  · rename_i heq
    exact absurd (hreverse heq) h
  · rename_i heq
    exact absurd (hreverse heq) h
  · rfl

/-- The lines of an input are those that it can be cut into. -/
theorem Cut.lines (h : Cut input ended rest) :
    (lines input).map withoutEnding = bodies ended rest := by
  obtain ⟨rfl, hended, hrest⟩ := h
  induction ended with
  | nil =>
    rw [List.flatMap_nil, List.nil_append, lines_of_plain hrest, bodies, List.map_nil,
      List.nil_append]
    split
    · rfl
    · exact congrArg ([·]) (withoutEnding_of_plain hrest)
  | cons body ended ih =>
    rw [List.forall_mem_cons] at hended
    rw [List.flatMap_cons, List.append_assoc, List.append_assoc, List.singleton_append,
      lines_append_newline hended.1, List.map_cons, withoutEnding_newline, ih hended.2]
    rfl

/-- The texts of lines, up to the first line that is none. -/
inductive Texts : List (List UInt8) → List String → Bool → Prop where
  /-- All lines have been read. -/
  | all : Texts [] [] false
  /-- A line is the bytes of no text, and the lines behind it do not matter. -/
  | broken {line rest} (h : ∀ text : String, text.toUTF8.data.toList ≠ line) :
    Texts (line :: rest) [] true
  /-- A line is a text. -/
  | text {rest sources broken} (text : String) (h : Texts rest sources broken) :
    Texts (text.toUTF8.data.toList :: rest) (text :: sources) broken

theorem exists_texts (bodies : List (List UInt8)) :
    ∃ sources broken, Texts bodies sources broken := by
  induction bodies with
  | nil => exact ⟨_, _, .all⟩
  | cons line rest ih =>
    obtain ⟨sources, broken, h⟩ := ih
    by_cases hline : ∃ text : String, text.toUTF8.data.toList = line
    · obtain ⟨text, rfl⟩ := hline
      exact ⟨_, _, .text text h⟩
    · exact ⟨_, _, .broken (not_exists.1 hline)⟩

/-- The sources that an input consists of, and whether a line that is no text follows them. -/
def Sources (input : List UInt8) (sources : List String) (broken : Bool) : Prop :=
  ∃ ended rest, Cut input ended rest ∧ Texts (bodies ended rest) sources broken

theorem exists_sources (input : List UInt8) : ∃ sources broken, Sources input sources broken := by
  obtain ⟨ended, rest, hcut⟩ := exists_cut input
  obtain ⟨sources, broken, htexts⟩ := exists_texts (bodies ended rest)
  exact ⟨sources, broken, ended, rest, hcut, htexts⟩

section Turns

variable {line : List UInt8} (rounds : Nat) (showTrees : Bool) (m : Machine)

/-- On a line that is a text the text is run. -/
theorem turn_of_text {text : String} (h : text.toUTF8.data.toList = withoutEnding line) :
    turn rounds showTrees m line = .ok (respond rounds showTrees m text) := by
  have hdecoded : String.fromUTF8? text.toUTF8 = some text := by
    simp only [String.fromUTF8?, String.toUTF8_eq_toByteArray, dif_pos text.isValidUTF8]
    rfl
  have hdecode : decode text.toUTF8 = .ok text := by rw [decode, hdecoded]
  rw [turn, ← h, Array.toArray_toList]
  show (decode text.toUTF8).map _ = _
  rw [hdecode]
  rfl

/-- On another line nothing is. -/
theorem turn_of_broken (h : ∀ text : String, text.toUTF8.data.toList ≠ withoutEnding line) :
    turn rounds showTrees m line = .error .notText := by
  have hnone : String.fromUTF8? ⟨(withoutEnding line).toArray⟩ = none := by
    unfold String.fromUTF8?
    split
    · rename_i hvalid
      exact absurd rfl (h (String.fromUTF8 _ hvalid))
    · rfl
  have hdecode : decode ⟨(withoutEnding line).toArray⟩ = .error .notText := by rw [decode, hnone]
  show (decode ⟨(withoutEnding line).toArray⟩).map _ = _
  rw [hdecode]
  rfl

end Turns

end Prompt

/-! ### Runs behind other output -/

/-- A sink that takes everything. -/
def Sink.Unlimited (sink : Sink) : Prop := ∃ written flushes, sink = { written, flushes }

theorem Sink.unlimited_kept :
    Output.Kept fun before after : Sink => before.Unlimited → after.Unlimited where
  refl _ := id
  trans hab hbc := hbc ∘ hab
  print := by
    rintro v _ ⟨written, flushes, rfl⟩
    exact ⟨written ++ v.printed, flushes, rfl⟩
  flush := by
    rintro _ ⟨written, flushes, rfl⟩
    exact ⟨written, flushes + 1, rfl⟩

section Runs

variable {ω : Type} [Output ω] {rounds more : Nat} {m : Machine ω}

/-- What sinks keep is kept by the run of a source. -/
theorem Output.Kept.run {P : ω → ω → Prop} (hP : Output.Kept P) (rounds : Nat) (m : Machine ω)
    (source : String) : P m.sink (m.run rounds source).machine.sink :=
  Machine.run_cases (P := fun after => P m.sink after.sink) (hP.refl m.sink)
    (hP.interpret rounds · m) source

theorem Outcome.exists_code {outcome : Outcome} (h : outcome ≠ .unfinished) :
    ∃ code, outcome.code? = some code := by
  cases outcome with
  | unfinished => exact absurd rfl h
  | _ => exact ⟨_, rfl⟩

/-- A run that ends ends alike with more rounds. -/
theorem run_more (hle : rounds ≤ more) {source : String}
    (h : (m.run rounds source).outcome ≠ .unfinished) :
    m.run more source = m.run rounds source := by
  rcases check_cases source with ⟨-, program, hcheck⟩ | ⟨-, errors, -, hcheck⟩
  · rw [run_of_check hcheck] at h
    rw [run_of_check hcheck, run_of_check hcheck, interpret_more hle]
    intro after hafter
    rw [hafter] at h
    exact h rfl
  · simp only [Machine.run, hcheck]

theorem session_more (hle : rounds ≤ more) {sources : List String} : ∀ {m : Machine ω},
    (∀ step ∈ session rounds m sources, step.2.outcome ≠ .unfinished) →
      session more m sources = session rounds m sources := by
  induction sources with
  | nil => exact fun _ => rfl
  | cons source rest ih =>
    intro m h
    obtain ⟨hhead, htail⟩ := List.forall_mem_cons.1 h
    rw [session, run_more hle hhead, ih htail]
    rfl

/-- What a run has written on a machine. -/
def Run.output (before : Machine) (run : Run) : ByteArray :=
  run.machine.sink.written.extract before.sink.written.size run.machine.sink.written.size

theorem Run.output_of_written {before : Machine} {run : Run} {out : ByteArray}
    (h : run.machine.sink.written = before.sink.written ++ out) : run.output before = out := by
  rw [Run.output, h]
  exact ByteArray.extract_append_eq_right rfl ByteArray.size_append

end Runs

/-! ### The prompt and the session -/

namespace Prompt

/-- What each step of a session writes. -/
def outputs (m : Machine) : List (String × Run) → List ByteArray
  | [] => []
  | (_, run) :: rest => run.output m :: outputs run.machine rest

/-- The trees of a source without errors, one on a line. -/
def trees (source : String) : String :=
  match check source with
  | .program statements => String.join (statements.map fun s => s.text ++ "\n")
  | _ => ""

/-- What a step shows on the second channel: trees, if they are asked for, and errors. -/
def notices (showTrees : Bool) (step : String × Run) : String :=
  (if showTrees then trees step.1 else "") ++
    ((step.2.outcome.text?.map (· ++ "\n")).getD "")

/-- What is shown of a session: marks around the output of its steps, and what they have to say.  A
line that is no text ends it. -/
def shown (showTrees : Bool) (m : Machine) (steps : List (String × Run)) (broken : Bool) :
    Transcript where
  stdout := (outputs m steps).foldr (fun out later => "> ".toUTF8 ++ out ++ later) "> ".toUTF8
  stderr := String.join (steps.map (notices showTrees)) ++
    if broken then "stream did not contain valid UTF-8\n" else ""
  code := some (if broken then 74 else 0)

theorem shown_cons (showTrees : Bool) (m : Machine) (source : String) (run : Run)
    (steps : List (String × Run)) (broken : Bool) :
    shown showTrees m ((source, run) :: steps) broken =
      (shown showTrees run.machine steps broken).after (mark ++ run.output m)
        (notices showTrees (source, run)) := by
  simp only [shown, Transcript.after, List.map_cons, String.join_cons, String.append_assoc]
  rfl

/-- The machine at the prompt is that of a session but for its sink, which is new for each line. -/
structure Behind (p m : Machine) : Prop where
  /-- The variables are the same. -/
  store : p.store = m.store
  /-- The scope is the same. -/
  here : p.here = m.here
  /-- The sink of the session takes everything. -/
  unlimited : m.sink.Unlimited

variable {p m : Machine} {rounds : Nat}

theorem treeLines_run (rounds : Nat) (m : Machine) (source : String) :
    treeLines (m.run rounds source).program = trees source := by
  rcases check_cases source with ⟨-, program, hcheck⟩ | ⟨-, errors, -, hcheck⟩
  · rw [run_of_check hcheck, Run.program_ofResult, trees, hcheck]
    rfl
  · rw [Machine.run, trees, hcheck]
    rfl

theorem errorText_eq (reply : Reply) :
    reply.errorText = (reply.outcome.text?.map (· ++ "\n")).getD "" := by
  unfold Reply.errorText
  cases reply.outcome.text? <;> rfl

/-- **One line at the prompt is one step of a session.** -/
theorem respond_shows (h : Behind p m) (rounds : Nat) (showTrees : Bool) (source : String) :
    let reply := respond rounds showTrees p source
    let run := m.run rounds source
    reply.output = run.output m ∧ reply.outcome = run.outcome ∧
      reply.notices = notices showTrees (source, run) ∧ Behind reply.machine run.machine := by
  obtain ⟨hstore, hhere, written, flushes, hsink⟩ := h
  -- the sink of the session is that of the prompt with something in it before
  have hsame : Machine.SameButSinks (Sink.Preceded written) { p with sink := ({} : Sink) } m := by
    refine ⟨hstore, hhere, ?_⟩
    rw [hsink]
    exact ⟨rfl, rfl, rfl, ByteArray.append_empty.symm⟩
  obtain ⟨houtcome, hafter⟩ :=
    run_sameButSinks (Sink.preceded_bisimulation written) hsame rounds source
  have hunlimited := Sink.unlimited_kept.run rounds m source ⟨written, flushes, hsink⟩
  intro reply run
  have htrees : reply.trees = if showTrees then trees source else "" := by
    rw [← treeLines_run rounds { p with sink := ({} : Sink) } source]
    rfl
  refine ⟨?_, houtcome, ?_, hafter.store, hafter.here, hunlimited⟩
  · refine (Run.output_of_written ?_).symm
    rw [hafter.sink.written, hsink]
    rfl
  · have hended : reply.outcome = run.outcome := houtcome
    rw [Reply.notices, htrees, errorText_eq, notices, hended]

/-- **All lines at the prompt are a session.** -/
theorem answer_shows {showTrees : Bool} {bodies : List (List UInt8)} {sources : List String}
    {broken : Bool} (htexts : Texts bodies sources broken) :
    ∀ {lines : List (List UInt8)} {p m : Machine}, lines.map withoutEnding = bodies →
      Behind p m → (∀ step ∈ session rounds m sources, step.2.outcome ≠ .unfinished) →
        answer rounds showTrees p lines = shown showTrees m (session rounds m sources) broken := by
  induction htexts with
  | all =>
    intro lines p m hlines _ _
    rw [List.map_eq_nil_iff.1 hlines]
    rfl
  | broken h =>
    intro lines p m hlines _ _
    obtain ⟨line, rest, rfl, rfl, -⟩ := List.map_eq_cons_iff.1 hlines
    rw [answer, turn_of_broken rounds showTrees p h]
    rfl
  | text text h ih =>
    intro lines p m hlines hbehind hends
    obtain ⟨line, rest, rfl, hline, hrest⟩ := List.map_eq_cons_iff.1 hlines
    obtain ⟨houtput, houtcome, hnotices, hafter⟩ := respond_shows hbehind rounds showTrees text
    obtain ⟨hend, hends⟩ := List.forall_mem_cons.1 hends
    obtain ⟨code, hcode⟩ := Outcome.exists_code hend
    rw [← houtcome] at hcode
    rw [answer, turn_of_text rounds showTrees p hline.symm, session, shown_cons,
      ← ih hrest hafter hends, ← houtput, ← hnotices]
    simp only [hcode]

end Prompt

/-- **The prompt is a session over the lines of its input**, up to the first line that is no
text. -/
theorem prompt_is_session (showTrees : Bool) (files : String → Except ReadFailure ByteArray)
    (input : List UInt8) :
    (∃ sources broken, Prompt.Sources input sources broken) ∧
      ∀ sources broken, Prompt.Sources input sources broken →
        ∀ rounds, (∀ step ∈ session rounds (Machine.new ({} : Sink)) sources,
            step.2.outcome ≠ .unfinished) →
          ∀ more, rounds ≤ more →
            (Invocation.prompt showTrees).transcript more files input =
              Prompt.shown showTrees (Machine.new {}) (session rounds (Machine.new {}) sources)
                broken := by
  refine ⟨Prompt.exists_sources input, ?_⟩
  rintro sources broken ⟨ended, rest, hcut, htexts⟩ rounds hends more hle
  have hmore := session_more hle hends
  rw [← hmore] at hends ⊢
  exact Prompt.answer_shows htexts hcut.lines ⟨rfl, rfl, _, _, rfl⟩ hends

/-- A line that runs, a line with an error, and a line that is no text. -/
theorem prompt_with_broken_line :
    let lines := ["print 1;\r".toUTF8.data.toList, "print".toUTF8.data.toList, [255]]
    let result := (Invocation.prompt true).transcript 1 (fun _ => .error .missing)
      (lines.flatMap (· ++ [10]) ++ "print 2;".toUTF8.data.toList)
    result.stdout = "> 1\n> > ".toUTF8 ∧
      result.stderr = "(print 1)\n[line 1] Error at end: Expect expression.\n" ++
        "stream did not contain valid UTF-8\n" ∧
      result.code = some 74 := by
  intro lines result
  have hbroken (text : String) : text.toUTF8.data.toList ≠ [255] := by
    intro h
    have hbytes : text.toUTF8 = ⟨#[255]⟩ := ByteArray.ext (Array.toList_inj.1 h)
    have hvalid : text.toUTF8.IsValidUTF8 := text.isValidUTF8
    rw [hbytes] at hvalid
    revert hvalid
    decide +kernel
  have hsources : Prompt.Sources (lines.flatMap (· ++ [10]) ++ "print 2;".toUTF8.data.toList)
      ["print 1;", "print"] true := by
    refine ⟨lines, _, ⟨rfl, by decide +kernel, by decide +kernel⟩, ?_⟩
    have hbodies : Prompt.bodies lines "print 2;".toUTF8.data.toList =
        ["print 1;".toUTF8.data.toList, "print".toUTF8.data.toList, [255],
          "print 2;".toUTF8.data.toList] := by decide +kernel
    rw [hbodies]
    exact .text _ (.text _ (.broken hbroken))
  have hshown : result = _ :=
    (prompt_is_session true _ _).2 _ _ hsources 1 (by decide +kernel) 1 le_rfl
  rw [hshown]
  exact ⟨by decide +kernel, by decide +kernel, rfl⟩

end Scriptlet
