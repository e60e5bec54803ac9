import Scriptlet.Proofs.Rounds

/-!
# A sink that fills up

A sink with a limit takes the first bytes of the output and refuses the rest.  As long as all output
fits, a program cannot tell it from a sink that takes everything.  The first print that does not fit
stops the program: what there is room for is written, the error is blamed on the line of the printed
expression, and the variables are as they were when that expression had been evaluated.  A program
that would write for ever is stopped in the same way.

* `Stmt.Prints`, `PrintsIn` : the moments of a run at which something is about to be printed;
* `Store.oldest` : the scopes that are left once those of the blocks inside are removed;
* `Machine.limit`, `printing_limit` : the same machine with a limit, and what printing does there;
* `Crossing` : how a run ends whose output does not fit;
* `Cuts`, `Cuts.bind` : an action does the same with a limit, or crosses it;
* `execute_cuts`, `executeAll_cuts` : so does every statement, by recursion on it;
* `full_sink_truncates` : **a full sink truncates the output and stops the program, and changes
  nothing else.**
-/

namespace Scriptlet

open Exec

/-! ### Prints -/

/-- The execution of a statement comes to print the value of an expression, in the state in which
its evaluation has ended. -/
inductive Stmt.Prints (rounds : Nat) : Stmt → Machine → Expr → Value → Machine → Prop
  /-- The statement itself prints. -/
  | print {value m v moment} (h : evaluate value m = .ok v moment) :
    Prints rounds (.print value) m value v moment
  /-- In a child of a block, once the children before it are done. -/
  | block {before s behind m between value v moment}
    (hbefore : executeAll rounds before m.inner = .ok () between)
    (h : Prints rounds s between value v moment) :
    Prints rounds (.block (before ++ s :: behind)) m value v moment
  /-- In the first branch. -/
  | yes {condition yes no m b between value v moment}
    (hcondition : evaluate condition m = .ok b between) (htrue : b.truthy = true)
    (h : Prints rounds yes between value v moment) :
    Prints rounds (.branch condition yes no) m value v moment
  /-- In the second branch. -/
  | no {condition yes no m b between value v moment}
    (hcondition : evaluate condition m = .ok b between) (hfalse : b.truthy = false)
    (h : Prints rounds no between value v moment) :
    Prints rounds (.branch condition yes (some no)) m value v moment
  /-- In the body of a loop. -/
  | body {condition body m b between value v moment}
    (hcondition : evaluate condition m = .ok b between) (htrue : b.truthy = true)
    (h : Prints rounds body between value v moment) :
    Prints rounds (.loop condition body) m value v moment
  /-- In a loop, after a round of it. -/
  | again {condition body m b between next value v moment}
    (hcondition : evaluate condition m = .ok b between) (htrue : b.truthy = true)
    (hbody : execute rounds body between = .ok () next)
    (h : Prints rounds (.loop condition body) next value v moment) :
    Prints rounds (.loop condition body) m value v moment

/-- The execution of statements comes to print: in one of them, once those before it are done. -/
def PrintsIn (rounds : Nat) (body : List Stmt) (m : Machine) (value : Expr) (v : Value)
    (moment : Machine) : Prop :=
  ∃ before s behind between, body = before ++ s :: behind ∧
    executeAll rounds before m = .ok () between ∧ s.Prints rounds between value v moment

theorem PrintsIn.head {rounds : Nat} {s : Stmt} {rest : List Stmt} {m moment : Machine}
    {value : Expr} {v : Value} (h : s.Prints rounds m value v moment) :
    PrintsIn rounds (s :: rest) m value v moment :=
  ⟨[], s, rest, m, rfl, rfl, h⟩

theorem PrintsIn.tail {rounds : Nat} {s : Stmt} {rest : List Stmt} {m next moment : Machine}
    {value : Expr} {v : Value} (hs : execute rounds s m = .ok () next)
    (h : PrintsIn rounds rest next value v moment) :
    PrintsIn rounds (s :: rest) m value v moment := by
  obtain ⟨before, t, behind, between, rfl, hbefore, ht⟩ := h
  exact ⟨s :: before, t, behind, between, rfl, (bind_of_ok hs).trans hbefore, ht⟩

/-! ### The scopes that are left -/

namespace Store

/-- The store with its oldest scopes only. -/
def oldest (store : Store) (count : Nat) : Store := ⟨store.scopes.take count⟩

variable {store : Store} {count : Nat}

theorem oldest_of_size_le (h : store.scopes.size ≤ count) : store.oldest count = store := by
  cases store
  exact congrArg Store.mk (Array.take_eq_extract.trans (Array.extract_eq_self_of_le h))

theorem drop_oldest (h : count < store.scopes.size) :
    (store.oldest (count + 1)).drop = store.oldest count := by
  have hmore : min (count + 1) store.scopes.size = count + 1 := Nat.min_eq_left h
  have hcount : min count store.scopes.size = count := Nat.min_eq_left (Nat.le_of_lt h)
  refine congrArg Store.mk (Array.ext_getElem? fun id => ?_)
  simp only [oldest, Array.take_eq_extract, Array.getElem?_pop, Array.getElem?_extract,
    Array.size_extract, hmore, hcount, Nat.sub_zero, Nat.add_sub_cancel]
  by_cases hid : id < count
  · simp [hid, Nat.lt_succ_of_lt hid]
  · simp [hid]

end Store

/-! ### Writing with a limit -/

/-- The sink as it were if it took a number of bytes in all. -/
def Sink.limit (n : Nat) (overflow : SinkFailure) (sink : Sink) : Sink :=
  { sink with room := some (n - sink.written.size), overflow }

section Writing

variable {n line : Nat} {overflow : SinkFailure} {sink : Sink} {v : Value}

theorem extract_of_size_le {bytes : ByteArray} (h : bytes.size ≤ n) :
    bytes.extract 0 n = bytes := by
  apply ByteArray.ext
  rw [ByteArray.data_extract]
  exact Array.extract_eq_self_of_le h

theorem printing_of_room (hroom : sink.room = none) :
    printing v line sink = .ok () { sink with written := sink.written ++ v.printed } := by
  have hwrite : sink.write v.printed =
      (none, { sink with written := sink.written ++ v.printed }) := by
    simp only [Sink.write, hroom]
  simp only [printing, Sink.print_eq, hwrite, Prod.map, Option.map, id]

theorem printing_limit (hfits : sink.written.size + v.printed.size ≤ n) :
    printing v line (sink.limit n overflow) =
      .ok () (.limit n overflow { sink with written := sink.written ++ v.printed }) := by
  have hle : v.printed.size ≤ n - sink.written.size := by omega
  have hwrite : (sink.limit n overflow).write v.printed =
      (none, .limit n overflow { sink with written := sink.written ++ v.printed }) := by
    simp only [Sink.write, Sink.limit, hle, if_true, extract_of_size_le hle,
      ByteArray.size_append, Nat.sub_sub]
  simp only [printing, Sink.print_eq, hwrite, Prod.map, Option.map, id]

/-- What does not fit is written in part. -/
theorem printing_limit_of_lt (hle : sink.written.size ≤ n)
    (hcrosses : n < sink.written.size + v.printed.size) :
    printing v line (sink.limit n overflow) =
      .error (.error ⟨.outputFailed overflow.text, line⟩)
        { sink.limit n overflow with
          room := some 0, written := (sink.written ++ v.printed).extract 0 n } := by
  have hlt : ¬v.printed.size ≤ n - sink.written.size := by omega
  have hpart : (sink.written ++ v.printed).extract 0 n =
      sink.written ++ v.printed.extract 0 (n - sink.written.size) := by
    rw [ByteArray.extract_append, Nat.zero_sub, extract_of_size_le hle]
  have hnone : n - sink.written.size - v.printed.size = 0 := by omega
  simp only [printing, Sink.print_eq, Sink.write, Sink.limit, hlt, if_false, hpart, hnone, Prod.map,
    Option.map, id]

end Writing

namespace Machine

/-- The machine as it were if its sink took a number of bytes in all. -/
def limit (n : Nat) (overflow : SinkFailure) (m : Machine) : Machine :=
  { m with sink := m.sink.limit n overflow }

/-- All that a machine has written fits a limit, and another machine is the same with the limit. -/
structure Fits (n : Nat) (overflow : SinkFailure) (m limited : Machine) : Prop where
  /-- The sink itself takes everything. -/
  room : m.sink.room = none
  /-- It has not been given more than the limit. -/
  size_le : m.sink.written.size ≤ n
  /-- Otherwise the machines are the same. -/
  eq : limited = m.limit n overflow

end Machine

/-! ### Crossing the limit -/

/-- A run from one machine to another one, `last`, is about to print a value at some moment, and
that does not fit a limit any more; `stopped` is the machine with the limit, after it has stopped
there. -/
structure Crossing (n : Nat) (v : Value) (m moment last stopped : Machine) : Prop where
  /-- Up to the moment all fits. -/
  fits : moment.sink.written.size ≤ n
  /-- With the value it does not. -/
  crosses : n < moment.sink.written.size + v.printed.size
  /-- The rest of the room is used for the beginning of the line. -/
  written : stopped.sink.written = (moment.sink.written ++ v.printed).extract 0 n
  /-- The scopes there were are there as they were at the moment. -/
  store : stopped.store = moment.store.oldest m.store.scopes.size
  /-- The scope that was current is current. -/
  here : stopped.here = m.here
  /-- At the moment there were scopes of blocks besides. -/
  size_le : m.store.scopes.size ≤ moment.store.scopes.size
  /-- Without a limit the line is written. -/
  goesOn : ∃ rest, last.sink.written = moment.sink.written ++ v.printed ++ rest

/-- A run stops at the limit in a print, one of those given. -/
def Crosses (n : Nat) (overflow : SinkFailure) (prints : Machine → Expr → Value → Machine → Prop)
    (m last : Machine) (stop : Stop) (stopped : Machine) : Prop :=
  ∃ value v moment, prints m value v moment ∧ Crossing n v m moment last stopped ∧
    stop = .error ⟨.outputFailed overflow.text, value.line?.getD 0⟩

/-- With a limit an action does the same, or it stops in one of the given prints. -/
def Cuts {α : Type} (n : Nat) (overflow : SinkFailure)
    (prints : Machine → Expr → Value → Machine → Prop) (action : Exec α) : Prop :=
  Tracks (Machine.Fits n overflow) (Crosses n overflow prints) action action

section Cuts

variable {α β : Type} {n rounds : Nat} {overflow : SinkFailure}
  {prints prints' : Machine → Expr → Value → Machine → Prop}

namespace Cuts

theorem mono {x : Exec α} (h : Cuts n overflow prints x)
    (hprints : ∀ m value v moment, prints m value v moment → prints' m value v moment) :
    Cuts n overflow prints' x := by
  intro m t hfits
  refine (h m t hfits).imp_right ?_
  rintro ⟨stop, t', ht, value, v, moment, hmoment, hcrossing⟩
  exact ⟨stop, t', ht, value, v, moment, hprints _ _ _ _ hmoment, hcrossing⟩

/-- A print of the second step is one of the whole, once the first step has come there. -/
theorem bind {names : List String} {x : Exec α} {f : α → Exec β} (hx : Cuts n overflow prints x)
    (hgrows : Keeps (Machine.Grows names) x)
    (hf : ∀ a, Cuts n overflow (fun between value v moment =>
      ∀ m, x m = .ok a between → prints m value v moment) (f a))
    (hextends : ∀ a, KeepsSink Sink.Extends (f a)) :
    Cuts n overflow prints (x >>= f) := by
  refine Tracks.bind hx hf ?_ ?_
  · rintro m stop t ⟨value, v, moment, hprints, h, hstop⟩
    refine ⟨value, v, moment, hprints, { h with goesOn := ?_ }, hstop⟩
    obtain ⟨rest, hrest⟩ := h.goesOn
    obtain ⟨more, hmore⟩ := Keeps.endState_bind Sink.extends_kept.actions.refl hextends m
    exact ⟨rest ++ more, by rw [hmore, hrest, ByteArray.append_assoc]⟩
  · rintro m a between stop t hok ⟨value, v, moment, hprints, h, hstop⟩
    have hbetween := hgrows m
    rw [endState_of_ok hok] at hbetween
    -- the first step has left the scopes there were, and the current one
    exact ⟨value, v, moment, hprints m hok,
      { h with
        store := hbetween.store.size ▸ h.store
        here := h.here.trans hbetween.here
        size_le := hbetween.store.size ▸ h.size_le }, hstop⟩

theorem evaluate (e : Expr) : Cuts n overflow prints (Exec.evaluate e) := by
  refine Mirrors.tracks ?_
  rintro m _ ⟨hroom, hle, rfl⟩
  rw [evaluate_eq, evaluate_eq]
  refine (Alike.refl _).through ?_
  rintro store _ rfl
  exact ⟨hroom, hle, rfl⟩

theorem pure (a : α) : Cuts n overflow prints (Pure.pure a : Exec α) := (Mirrors.pure a).tracks

theorem define (name : String) (value : Value) :
    Cuts n overflow prints (Exec.define name value) := by
  refine Mirrors.tracks ?_
  rintro m _ ⟨hroom, hle, rfl⟩
  exact .ok ⟨hroom, hle, rfl⟩

/-- A line is written as a whole, or it crosses the limit. -/
theorem printLine (value : Expr) (v : Value) :
    Cuts n overflow (fun m e w moment => e = value ∧ w = v ∧ moment = m)
      (Exec.printLine v (value.line?.getD 0)) := by
  rintro m _ ⟨hroom, hle, rfl⟩
  rw [printLine_eq, printLine_eq, endState_through (printLine_eq _ _ m)]
  have haccepted : printing v (value.line?.getD 0) m.sink =
      .ok () { m.sink with written := m.sink.written ++ v.printed } := printing_of_room hroom
  rw [endState_of_ok haccepted, haccepted]
  by_cases hfits : m.sink.written.size + v.printed.size ≤ n
  · refine .inl ?_
    rw [Machine.limit, printing_limit hfits]
    exact .ok ⟨hroom, by rwa [ByteArray.size_append], rfl⟩
  · have hcrosses := Nat.lt_of_not_le hfits
    rw [Machine.limit, printing_limit_of_lt hle hcrosses]
    refine .inr ⟨_, _, rfl, value, v, m, ⟨rfl, rfl, rfl⟩, ?_, rfl⟩
    exact
      { fits := hle
        crosses := hcrosses
        written := rfl
        store := (Store.oldest_of_size_le (Nat.le_refl _)).symm
        here := rfl
        size_le := Nat.le_refl _
        goesOn := ⟨.empty, ByteArray.append_empty.symm⟩ }

theorem withinNew {action : Exec Unit} (h : Cuts n overflow prints action)
    (hinner : ∀ m value v moment, prints m.inner value v moment → prints' m value v moment) :
    Cuts n overflow prints' (Exec.withinNew action) := by
  rintro m _ ⟨hroom, hle, rfl⟩
  have hlimit : (m.limit n overflow).inner = m.inner.limit n overflow := rfl
  rw [endState_through (withinNew_eq action m), withinNew_eq, withinNew_eq, hlimit]
  rcases h m.inner (m.inner.limit n overflow) ⟨hroom, hle, rfl⟩ with h | ⟨stop, t, ht, hstop⟩
  · refine .inl (h.through ?_)
    rintro s _ ⟨hroom, hle, rfl⟩
    exact ⟨hroom, hle, rfl⟩
  · obtain ⟨value, v, moment, hprints, h, rfl⟩ := hstop
    have hsize : m.inner.store.scopes.size = m.store.scopes.size + 1 := Store.size_add ..
    have hlt : m.store.scopes.size < moment.store.scopes.size := by
      have hle := h.size_le
      omega
    refine .inr ⟨_, ⟨t.store.drop, m.here, t.sink⟩, by rw [ht]; rfl, value, v, moment,
      hinner _ _ _ _ hprints, { h with store := ?_, here := rfl, size_le := Nat.le_of_lt hlt }, rfl⟩
    -- the scope of the block was the youngest of those that were left
    show t.store.drop = _
    rw [h.store, hsize, Store.drop_oldest hlt]

/-- An expression prints nothing, and what follows it may. -/
theorem evaluate_bind (e : Expr) {f : Value → Exec β}
    (hf : ∀ b, Cuts n overflow (fun between value v moment =>
      ∀ m, Exec.evaluate e m = .ok b between → prints m value v moment) (f b))
    (hextends : ∀ b, KeepsSink Sink.Extends (f b)) :
    Cuts n overflow prints (Exec.evaluate e >>= f) :=
  (evaluate e).bind (evaluate_grows e : Keeps (Machine.Grows []) _) hf hextends

theorem repeatWhile {condition : Expr} {body : Stmt}
    (h : Cuts n overflow (body.Prints rounds) (execute rounds body)) :
    ∀ count, Cuts n overflow ((Stmt.loop condition body).Prints rounds)
      (Exec.repeatWhile condition (execute rounds body) count) := by
  intro count
  induction count with
  | zero => exact (Mirrors.throw _).tracks
  | succ count ih =>
    have hextends := execute_keeps Sink.extends_kept.actions rounds body
    have hmore := repeatWhile_keeps Sink.extends_kept.actions condition hextends count
    refine .evaluate_bind condition (fun b => ?_) fun b => ?_
    · cases hb : b.truthy with
      | false => exact .pure ()
      | true =>
        refine Cuts.bind (h.mono ?_) (execute_grows rounds body) (fun _ => ih.mono ?_)
          fun _ => hmore
        · exact fun _ _ _ _ hprints m hok => .body hok hb hprints
        · exact fun _ _ _ _ hprints _ hbody m hok => .again hok hb hbody hprints
    · split
      · exact .bind Sink.extends_kept.actions.trans hextends fun _ => hmore
      · exact Sink.extends_kept.actions.refl

end Cuts

mutual

/-- With a limit a statement does the same, or it stops in one of its prints. -/
theorem execute_cuts (rounds : Nat) : ∀ s, Cuts n overflow (s.Prints rounds) (execute rounds s)
  | .print value => by
    refine .evaluate_bind value (fun v => (Cuts.printLine value v).mono ?_) fun v =>
      Sink.extends_kept.actions.print _ _
    rintro _ _ _ _ ⟨rfl, rfl, rfl⟩ m hok
    exact .print hok
  | .expression e => .evaluate_bind e (fun _ => .pure ()) fun _ => Sink.extends_kept.actions.refl
  | .var name none => .define name.lexeme .nil
  | .var name (some init) =>
    .evaluate_bind init (fun v => .define name.lexeme v) fun v =>
      Sink.extends_kept.actions.define _ _
  | .block body => by
    refine (executeAll_cuts rounds body).withinNew ?_
    rintro m value v moment ⟨before, s, behind, between, rfl, hbefore, hprints⟩
    exact .block hbefore hprints
  | .branch condition yes none => by
    refine .evaluate_bind condition (fun b => ?_) fun b => ?_
    · cases hb : b.truthy with
      | false => exact .pure ()
      | true =>
        exact (execute_cuts rounds yes).mono fun _ _ _ _ hprints m hok => .yes hok hb hprints
    · split
      · exact execute_keeps Sink.extends_kept.actions rounds yes
      · exact Sink.extends_kept.actions.refl
  | .branch condition yes (some no) => by
    refine .evaluate_bind condition (fun b => ?_) fun b => ?_
    · cases hb : b.truthy with
      | false =>
        exact (execute_cuts rounds no).mono fun _ _ _ _ hprints m hok => .no hok hb hprints
      | true =>
        exact (execute_cuts rounds yes).mono fun _ _ _ _ hprints m hok => .yes hok hb hprints
    · split
      · exact execute_keeps Sink.extends_kept.actions rounds yes
      · exact execute_keeps Sink.extends_kept.actions rounds no
  | .loop condition body => .repeatWhile (execute_cuts rounds body) rounds
termination_by structural s => s

/-- So do statements one after another. -/
theorem executeAll_cuts (rounds : Nat) :
    ∀ body, Cuts n overflow (PrintsIn rounds body) (executeAll rounds body)
  | [] => .pure ()
  | s :: rest => by
    refine Cuts.bind ((execute_cuts rounds s).mono ?_) (execute_grows rounds s)
      (fun _ => (executeAll_cuts rounds rest).mono ?_) fun _ =>
        executeAll_keeps Sink.extends_kept.actions rounds rest
    · exact fun _ _ _ _ hprints => .head hprints
    · exact fun _ _ _ _ hprints m hok => .tail hok hprints
termination_by structural body => body

end

end Cuts

/-! ### Whole programs -/

/-- What a program writes to a sink that takes everything. -/
def outputOf (rounds : Nat) (program : List Stmt) (m : Machine) : ByteArray :=
  (endState (interpret rounds program) { m with sink := ({} : Sink) }).sink.written

/-- Two machines have the same variables and the same scope is current in both, and the same has
been written and as often been flushed. -/
structure Machine.Agrees (a b : Machine) : Prop where
  /-- The same variables. -/
  store : b.store = a.store
  /-- The same scope is current. -/
  here : b.here = a.here
  /-- The same has been written. -/
  written : b.sink.written = a.sink.written
  /-- It has been flushed as often. -/
  flushes : b.sink.flushes = a.sink.flushes

section Flushing

variable {n : Nat} {overflow : SinkFailure}

theorem flush_mirrors : Mirrors (Machine.Fits n overflow) flush flush := by
  rintro ⟨store, here, sink⟩ _ ⟨hroom, hle, rfl⟩
  cases hfails : sink.flushFails <;>
    simp only [flush, Sink.flush_eq, Machine.limit, Sink.limit, Sink.flush, hfails, if_true,
      Bool.false_eq_true, if_false, Prod.map, Option.map, id]
  · exact .ok ⟨hroom, hle, rfl⟩
  · exact .error ⟨hroom, hle, rfl⟩

/-- The flush at the end makes no difference. -/
theorem Cuts.flushing {prints : Machine → Expr → Value → Machine → Prop} {x : Exec Unit}
    (h : Cuts n overflow prints x) : Cuts n overflow prints (flushing x) := by
  intro m t hfits
  rcases h m t hfits with h | ⟨_, t', ht, value, v, moment, hprints, h, rfl⟩
  · exact .inl (flushing_alike flush_mirrors h)
  · refine .inr ⟨_, endState flush t', flushing_of_error ht, value, v, moment, hprints, ?_, rfl⟩
    obtain ⟨rest, hrest⟩ := h.goesOn
    obtain ⟨more, hmore⟩ := Sink.extends_kept.flushing x m
    rw [endState_flush]
    exact { h with goesOn := ⟨rest ++ more, by rw [hmore, hrest, ByteArray.append_assoc]⟩ }

end Flushing

theorem extract_append_of_le {a b : ByteArray} {n : Nat} (h : n ≤ a.size) :
    (a ++ b).extract 0 n = a.extract 0 n := by
  rw [ByteArray.extract_append, Nat.zero_sub, Nat.sub_eq_zero_of_le h, ByteArray.extract_same,
    ByteArray.append_empty]

/-- **A full sink truncates the output and stops the program, and changes nothing else.**  A program
whose output has at most as many bytes as a sink takes ends with it as it does with a sink that
takes everything.  One with more output, be it that it runs for ever, stops with an error at the
print whose line crosses the limit; the sink has then the first bytes of the output, and the
variables are those right after the evaluation of what is printed.  The output with some number of
rounds is the beginning of the output with more of them. -/
theorem full_sink_truncates (rounds n : Nat) (overflow : SinkFailure) (program : List Stmt)
    (m : Machine) :
    ((outputOf rounds program m).size ≤ n →
      Alike Machine.Agrees (interpret rounds program { m with sink := ({} : Sink) })
        (interpret rounds program { m with sink := ({ room := some n, overflow } : Sink) })) ∧
    (n < (outputOf rounds program m).size →
      ∃ value v moment final,
        PrintsIn rounds program { m with sink := {} } value v moment ∧
        (∃ rest, outputOf rounds program m = moment.sink.written ++ v.printed ++ rest) ∧
        moment.sink.written.size ≤ n ∧ n < moment.sink.written.size + v.printed.size ∧
        (∀ more, rounds ≤ more →
          interpret more program { m with sink := ({ room := some n, overflow } : Sink) } =
            .error (.error ⟨.outputFailed overflow.text, value.line?.getD 0⟩) final) ∧
        final.sink.written = (outputOf rounds program m).extract 0 n ∧
        final.here = m.here ∧ final.store = moment.store.oldest m.store.scopes.size) ∧
    ∀ more, rounds ≤ more →
      ∃ rest, outputOf more program m = outputOf rounds program m ++ rest := by
  have hfits : Machine.Fits n overflow { m with sink := {} }
      { m with sink := { room := some n, overflow } } := ⟨rfl, Nat.zero_le n, rfl⟩
  have hcuts : Cuts n overflow _ (interpret rounds program) :=
    (executeAll_cuts rounds program).flushing
  have hcuts := hcuts _ _ hfits
  refine ⟨fun hle => ?_, fun hlt => ?_, fun more hle => ?_⟩
  · rcases hcuts with h | ⟨_, t, ht, value, v, moment, hprints, h, rfl⟩
    · refine h.mono ?_
      rintro a _ ⟨-, -, rfl⟩
      exact ⟨rfl, rfl, rfl, rfl⟩
    · obtain ⟨rest, hrest⟩ := h.goesOn
      have hcrosses := h.crosses
      rw [outputOf, hrest, ByteArray.size_append, ByteArray.size_append] at hle
      omega
  · rcases hcuts with h | ⟨_, t, ht, value, v, moment, hprints, h, rfl⟩
    · exact absurd hlt (Nat.not_lt_of_le h.endState.size_le)
    · obtain ⟨rest, hrest⟩ := h.goesOn
      refine ⟨value, v, moment, t, hprints, ⟨rest, hrest⟩, h.fits, h.crosses, fun more hle => ?_,
        ?_, h.here, h.store⟩
      · rw [interpret_more hle (by rw [ht]; nofun), ht]
      · have hle : n ≤ (moment.sink.written ++ v.printed).size := by
          rw [ByteArray.size_append]
          exact Nat.le_of_lt h.crosses
        rw [h.written, outputOf, hrest, extract_append_of_le hle]
  · exact interpret_kept Sink.extends_kept hle program _

end Scriptlet
