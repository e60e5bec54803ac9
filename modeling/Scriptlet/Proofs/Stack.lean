import Scriptlet.Proofs.Frame

/-!
# A stack of maps

The plainest way to run a program keeps the bindings as a list of maps, the innermost first.  A block
puts an empty map on top and takes it off again however it ends; a declaration writes into the map on
top; a variable is read and assigned in the first map from the top that has its name.  There are no
scopes that anyone could share, and no links between them.

* `Frames`, `Stack` : the maps, and with them the sink;
* `Stack.execute` : the run of a statement on a stack;
* `Expr.mentions`, `Stmt.mentions` : the variables that occur in a piece of a program;
* `Stack.Respected` : a relation between maps that the steps of a program keep and do not see;
* `Stack.Respected.execute` : neither does the run of a statement;
* `Stack.respected_padded` : one such relation, in which one stack has an empty map more;
* `Stack.pushed_transparent` : **a block without declarations of its own does what its statements
  do.**
-/

namespace Scriptlet

/-- Maps from names to values, the innermost first. -/
abbrev Frames := List Bindings

namespace Frames

/-- The value of a name in the first map that has it. -/
def find? (frames : Frames) (name : String) : Option Value :=
  frames.findSome? fun frame => frame.find? name

/-- A new value for a name in the first map that has it. -/
def overwrite? (name : String) (value : Value) : Frames → Option Frames
  | [] => none
  | frame :: rest =>
    if (frame.find? name).isSome then some (frame.put name value :: rest)
    else (overwrite? name value rest).map (frame :: ·)

/-- A value for a name in the first map. -/
def define (name : String) (value : Value) : Frames → Frames
  | [] => []
  | frame :: rest => frame.put name value :: rest

end Frames

/-- The state of a program that runs on a stack of maps. -/
structure Stack (ω : Type) where
  /-- The maps. -/
  frames : Frames
  /-- Where output goes. -/
  sink : ω

namespace Stack

variable {ω : Type}

/-! ### Expressions -/

/-- Reads a variable. -/
def lookUp (name : Token) : EStateM RuntimeError Frames Value := fun frames =>
  match frames.find? name.lexeme with
  | some v => .ok v frames
  | none => .error (Store.undefined name) frames

/-- Gives a variable a value. -/
def overwrite (name : Token) (v : Value) : EStateM RuntimeError Frames Value := fun frames =>
  match frames.overwrite? name.lexeme v with
  | some after => .ok v after
  | none => .error (Store.undefined name) frames

/-- The value of an expression. -/
def eval : Expr → EStateM RuntimeError Frames Value
  | .literal v => pure v
  | .grouping inner => eval inner
  | .unary operator operand => do
    let v ← eval operand
    ofExcept (applyUnary operator v)
  | .binary left operator right => do
    let a ← eval left
    let b ← eval right
    ofExcept (applyBinary operator a b)
  | .logical left operator right => do
    let a ← eval left
    if decides operator a then return a else eval right
  | .reference name => lookUp name
  | .assign name value => do
    let v ← eval value
    overwrite name v

/-! ### Statements -/

/-- Evaluates an expression. -/
def evaluate (e : Expr) : EStateM Stop (Stack ω) Value := fun stack =>
  through (fun frames => { stack with frames }) Stop.error (eval e stack.frames)

/-- Prints a value. -/
def printLine [Output ω] (v : Value) (line : Nat) : EStateM Stop (Stack ω) Unit := fun stack =>
  through (fun sink => { stack with sink }) id (printing v line stack.sink)

/-- Declares a variable in the map on top. -/
def define (name : String) (value : Value) : EStateM Stop (Stack ω) Unit := fun stack =>
  .ok () { stack with frames := stack.frames.define name value }

/-- Acts with an empty map on top, which is taken off afterwards, also after an error. -/
def pushed (action : EStateM Stop (Stack ω) Unit) : EStateM Stop (Stack ω) Unit := fun stack =>
  through (fun inside => { inside with frames := inside.frames.tail }) id
    (action { stack with frames := [] :: stack.frames })

variable [Output ω]

mutual

/-- Executes a statement; each loop in it may run the given number of rounds. -/
def execute (rounds : Nat) : Stmt → EStateM Stop (Stack ω) Unit
  | .print value => do
    let v ← evaluate value
    printLine v (value.line?.getD 0)
  | .expression e => discard (evaluate e)
  | .var name none => define name.lexeme .nil
  | .var name (some init) => do
    let v ← evaluate init
    define name.lexeme v
  | .block body => pushed (executeAll rounds body)
  | .branch condition yes none => do
    if (← evaluate condition).truthy then execute rounds yes else return ()
  | .branch condition yes (some no) => do
    if (← evaluate condition).truthy then execute rounds yes else execute rounds no
  | .loop condition body => whileTrue (evaluate condition) (execute rounds body) rounds
termination_by structural s => s

/-- Executes statements in order, up to the first that stops. -/
def executeAll (rounds : Nat) : List Stmt → EStateM Stop (Stack ω) Unit
  | [] => return ()
  | s :: rest => do
    execute rounds s
    executeAll rounds rest
termination_by structural body => body

end

end Stack

/-! ### What statements mention -/

/-- The variables that an expression reads or gives a value. -/
def Expr.mentions : Expr → List String
  | literal _ => []
  | grouping inner => inner.mentions
  | unary _ operand => operand.mentions
  | binary left _ right => left.mentions ++ right.mentions
  | logical left _ right => left.mentions ++ right.mentions
  | reference name => [name.lexeme]
  | assign name value => name.lexeme :: value.mentions

namespace Stmt

mutual

/-- The variables that a statement reads, gives a value or declares, inside of blocks as well. -/
def mentions : Stmt → List String
  | print value => value.mentions
  | expression e => e.mentions
  | var name none => [name.lexeme]
  | var name (some init) => name.lexeme :: init.mentions
  | block body => allMentions body
  | branch condition yes none => condition.mentions ++ yes.mentions
  | branch condition yes (some no) => condition.mentions ++ (yes.mentions ++ no.mentions)
  | loop condition body => condition.mentions ++ body.mentions
termination_by structural s => s

/-- The variables that statements mention. -/
def allMentions : List Stmt → List String
  | [] => []
  | s :: rest => s.mentions ++ allMentions rest
termination_by structural body => body

end

theorem mem_allMentions {s : Stmt} {name : String} (hname : name ∈ s.mentions) :
    ∀ {body : List Stmt}, s ∈ body → name ∈ allMentions body
  | _ :: _, .head _ => List.mem_append_left _ hname
  | _ :: _, .tail _ hs => List.mem_append_right _ (mem_allMentions hname hs)

/-- What a statement declares it mentions. -/
theorem declared_subset_mentions : ∀ s : Stmt, s.declared ⊆ s.mentions
  | .print _ | .expression _ | .block _ => List.nil_subset _
  | .var _ none => List.Subset.refl _
  | .var _ (some _) => List.cons_subset_cons _ (List.nil_subset _)
  | .branch _ yes none => List.subset_append_of_subset_right _ yes.declared_subset_mentions
  | .branch _ yes (some no) =>
    List.subset_append_of_subset_right _ <| List.append_subset.2
      ⟨List.subset_append_of_subset_left _ yes.declared_subset_mentions,
        List.subset_append_of_subset_right _ no.declared_subset_mentions⟩
  | .loop _ body => List.subset_append_of_subset_right _ body.declared_subset_mentions
termination_by structural s => s

end Stmt

/-! ### Stacks that a program cannot tell apart -/

namespace Stack

/-- A relation between maps, at each depth of blocks, which the steps of a program keep and which
they cannot see, as long as it uses and declares only certain names. -/
structure Respected (maps : Nat → Frames → Frames → Prop) (used : String → Prop)
    (declared : Nat → String → Prop) : Prop where
  /-- A name has the same value in both. -/
  find : ∀ {depth a b name}, maps depth a b → used name → a.find? name = b.find? name
  /-- It is given a value in both or in neither. -/
  overwrite : ∀ {depth a b name}, maps depth a b → used name → ∀ value,
    (a.overwrite? name value = none ∧ b.overwrite? name value = none) ∨
      ∃ a' b', a.overwrite? name value = some a' ∧ b.overwrite? name value = some b' ∧
        maps depth a' b'
  /-- It may be declared in both. -/
  define : ∀ {depth a b name}, maps depth a b → declared depth name → ∀ value,
    maps depth (a.define name value) (b.define name value)
  /-- Whatever is used may be declared in blocks. -/
  inner : ∀ {depth name}, used name → declared (depth + 1) name
  /-- A block may start. -/
  push : ∀ {depth a b}, maps depth a b → maps (depth + 1) ([] :: a) ([] :: b)
  /-- A block may end. -/
  pop : ∀ {depth a b}, maps (depth + 1) a b → maps depth a.tail b.tail

/-- The maps of two stacks are related, and their sinks are the same. -/
def Relates {ω : Type} (maps : Nat → Frames → Frames → Prop) (depth : Nat) (s t : Stack ω) : Prop :=
  maps depth s.frames t.frames ∧ s.sink = t.sink

theorem printLine_relates {ω : Type} [Output ω] {maps : Nat → Frames → Frames → Prop} {depth : Nat}
    (v : Value) (line : Nat) :
    Mirrors (Relates maps depth) (printLine v line : EStateM Stop (Stack ω) Unit)
      (printLine v line) := by
  rintro ⟨a, s⟩ ⟨b, _⟩ ⟨hmaps, rfl⟩
  refine (Alike.refl (printing v line s)).through ?_
  rintro sink _ rfl
  exact ⟨hmaps, rfl⟩

namespace Respected

variable {ω : Type} {maps : Nat → Frames → Frames → Prop} {used : String → Prop}
  {declared : Nat → String → Prop}

theorem eval (hR : Respected maps used declared) {depth : Nat} (e : Expr)
    (hused : ∀ name ∈ e.mentions, used name) :
    Mirrors (maps depth) (Stack.eval e) (Stack.eval e) := by
  induction e with
  | literal v => exact .pure v
  | grouping inner ih => exact ih hused
  | unary operator operand ih => exact (ih hused).bind fun v => .ofExcept _
  | binary left operator right ihl ihr =>
    obtain ⟨hl, hr⟩ := List.forall_mem_append.1 hused
    exact (ihl hl).bind fun a => (ihr hr).bind fun b => .ofExcept _
  | logical left operator right ihl ihr =>
    obtain ⟨hl, hr⟩ := List.forall_mem_append.1 hused
    refine (ihl hl).bind fun a => ?_
    split
    · exact .pure a
    · exact ihr hr
  | reference name =>
    intro a b h
    simp only [Stack.eval, lookUp, hR.find h (hused _ List.mem_cons_self)]
    cases b.find? name.lexeme with
    | some v => exact .ok h
    | none => exact .error h
  | assign name value ih =>
    obtain ⟨hname, hvalue⟩ := List.forall_mem_cons.1 hused
    refine (ih hvalue).bind fun v a b h => ?_
    rcases hR.overwrite h hname v with ⟨ha, hb⟩ | ⟨a', b', ha, hb, h'⟩
    · simp only [Stack.overwrite, ha, hb]
      exact .error h
    · simp only [Stack.overwrite, ha, hb]
      exact .ok h'

theorem evaluate (hR : Respected maps used declared) {depth : Nat} (e : Expr)
    (hused : ∀ name ∈ e.mentions, used name) :
    Mirrors (Relates maps depth) (Stack.evaluate e : EStateM Stop (Stack ω) Value)
      (Stack.evaluate e) :=
  fun s t h => (hR.eval e hused s.frames t.frames h.1).through fun _ _ h' => ⟨h', h.2⟩

theorem declare (hR : Respected maps used declared) {depth : Nat} {name : String}
    (hdeclared : declared depth name) (value : Value) :
    Mirrors (Relates maps depth) (Stack.define name value : EStateM Stop (Stack ω) Unit)
      (Stack.define name value) :=
  fun _ _ h => .ok ⟨hR.define h.1 hdeclared value, h.2⟩

theorem pushed (hR : Respected maps used declared) {depth : Nat}
    {x y : EStateM Stop (Stack ω) Unit} (h : Mirrors (Relates maps (depth + 1)) x y) :
    Mirrors (Relates maps depth) (Stack.pushed x) (Stack.pushed y) :=
  fun s t hst =>
    (h { s with frames := [] :: s.frames } { t with frames := [] :: t.frames }
      ⟨hR.push hst.1, hst.2⟩).through fun _ _ h' => ⟨hR.pop h'.1, h'.2⟩

variable [Output ω]

mutual

/-- A statement does the same on related stacks, and leaves related ones. -/
theorem execute (hR : Respected maps used declared) (rounds : Nat) :
    ∀ (s : Stmt) (depth : Nat), (∀ name ∈ s.mentions, used name) →
      (∀ name ∈ s.declared, declared depth name) →
      Mirrors (Relates maps depth) (Stack.execute rounds s : EStateM Stop (Stack ω) Unit)
        (Stack.execute rounds s)
  | .print value, _, hused, _ => (hR.evaluate value hused).bind fun v => printLine_relates v _
  | .expression e, _, hused, _ => (hR.evaluate e hused).bind fun v => .pure _
  | .var name none, _, _, hdeclared => hR.declare (hdeclared _ List.mem_cons_self) _
  | .var name (some init), _, hused, hdeclared =>
    (hR.evaluate init (List.forall_mem_cons.1 hused).2).bind fun v =>
      hR.declare (hdeclared _ List.mem_cons_self) _
  | .block body, depth, hused, _ =>
    hR.pushed (hR.executeAll rounds body (depth + 1) hused fun s hs name hname =>
      hR.inner (hused name (Stmt.mem_allMentions (s.declared_subset_mentions hname) hs)))
  | .branch condition yes none, depth, hused, hdeclared => by
    obtain ⟨hcondition, hyes⟩ := List.forall_mem_append.1 hused
    refine (hR.evaluate condition hcondition).bind fun v => ?_
    split
    · exact hR.execute rounds yes depth hyes hdeclared
    · exact .pure ()
  | .branch condition yes (some no), depth, hused, hdeclared => by
    obtain ⟨hcondition, hbranches⟩ := List.forall_mem_append.1 hused
    obtain ⟨hyes, hno⟩ := List.forall_mem_append.1 hbranches
    obtain ⟨hdyes, hdno⟩ := List.forall_mem_append.1 hdeclared
    refine (hR.evaluate condition hcondition).bind fun v => ?_
    split
    · exact hR.execute rounds yes depth hyes hdyes
    · exact hR.execute rounds no depth hno hdno
  | .loop condition body, depth, hused, hdeclared => by
    obtain ⟨hcondition, hbody⟩ := List.forall_mem_append.1 hused
    exact .whileTrue (hR.evaluate condition hcondition)
      (hR.execute rounds body depth hbody hdeclared) rounds
termination_by structural s => s

theorem executeAll (hR : Respected maps used declared) (rounds : Nat) :
    ∀ (body : List Stmt) (depth : Nat), (∀ name ∈ Stmt.allMentions body, used name) →
      (∀ s ∈ body, ∀ name ∈ s.declared, declared depth name) →
      Mirrors (Relates maps depth) (Stack.executeAll rounds body : EStateM Stop (Stack ω) Unit)
        (Stack.executeAll rounds body)
  | [], _, _, _ => .pure ()
  | s :: rest, depth, hused, hdeclared => by
    obtain ⟨hs, hrest⟩ := List.forall_mem_append.1 hused
    obtain ⟨hds, hdrest⟩ := List.forall_mem_cons.1 hdeclared
    exact (hR.execute rounds s depth hs hds).bind fun _ =>
      hR.executeAll rounds rest depth hrest hdrest
termination_by structural body => body

end

end Respected

end Stack

/-! ### An empty map among the others -/

/-- One list of maps is another one with an empty map at a certain depth. -/
def Frames.Padded (depth : Nat) (padded frames : Frames) : Prop :=
  ∃ inner outer, inner.length = depth ∧ padded = inner ++ [] :: outer ∧ frames = inner ++ outer

namespace Frames

variable {padded frames : Frames} {depth : Nat} {name : String} {value : Value}

theorem overwrite?_append (name : String) (value : Value) (inner outer : Frames) :
    overwrite? name value (inner ++ outer) =
      ((overwrite? name value inner).map (· ++ outer)).or
        ((overwrite? name value outer).map (inner ++ ·)) := by
  induction inner with
  | nil => simp [overwrite?]
  | cons frame inner ih =>
    rw [List.cons_append, overwrite?, overwrite?]
    split
    · rfl
    · rw [ih]
      cases overwrite? name value inner <;> cases overwrite? name value outer <;> rfl

theorem length_of_overwrite? : ∀ {frames after : Frames},
    overwrite? name value frames = some after → after.length = frames.length := by
  intro frames
  induction frames with
  | nil => intro after h; cases h
  | cons frame rest ih =>
    intro after h
    rw [overwrite?] at h
    split at h
    · cases h; rfl
    · obtain ⟨tail, htail, rfl⟩ := Option.map_eq_some_iff.1 h
      rw [List.length_cons, List.length_cons, ih htail]

theorem Padded.find? (h : Padded depth padded frames) (name : String) :
    padded.find? name = frames.find? name := by
  obtain ⟨inner, outer, -, rfl, rfl⟩ := h
  simp only [Frames.find?, List.findSome?_append, List.findSome?_cons, Bindings.find?_nil]

/-- The first map with a name is the same one, before the empty map or behind it. -/
theorem Padded.overwrite? (h : Padded depth padded frames) (name : String) (value : Value) :
    (padded.overwrite? name value = none ∧ frames.overwrite? name value = none) ∨
      ∃ padded' frames', padded.overwrite? name value = some padded' ∧
        frames.overwrite? name value = some frames' ∧ Padded depth padded' frames' := by
  obtain ⟨inner, outer, hlen, rfl, rfl⟩ := h
  rw [overwrite?_append, overwrite?_append, Frames.overwrite?]
  -- the empty map has no name, so only the maps before it and behind it can be overwritten
  cases hinner : Frames.overwrite? name value inner with
  | some inner' =>
    exact .inr ⟨_, _, rfl, rfl, inner', outer, (length_of_overwrite? hinner).trans hlen, rfl, rfl⟩
  | none =>
    cases houter : Frames.overwrite? name value outer with
    | none => exact .inl ⟨rfl, rfl⟩
    | some outer' => exact .inr ⟨_, _, rfl, rfl, inner, outer', hlen, rfl, rfl⟩

theorem Padded.define (h : Padded (depth + 1) padded frames) (name : String) (value : Value) :
    Padded (depth + 1) (padded.define name value) (frames.define name value) := by
  obtain ⟨_ | ⟨frame, inner⟩, outer, hlen, rfl, rfl⟩ := h
  · cases hlen
  · exact ⟨Bindings.put name value frame :: inner, outer, hlen, rfl, rfl⟩

end Frames

namespace Stack

/-- An empty map makes no difference, unless it is on top and something is declared there. -/
theorem respected_padded :
    Respected Frames.Padded (fun _ => True) fun depth _ => depth ≠ 0 where
  find h _ := h.find? _
  overwrite h _ value := h.overwrite? _ value
  define {depth} _ _ _ h hdepth value := by
    cases depth with
    | zero => exact absurd rfl hdepth
    | succ depth => exact h.define _ value
  inner _ := Nat.succ_ne_zero _
  push := by
    rintro depth _ _ ⟨inner, outer, hlen, rfl, rfl⟩
    exact ⟨[] :: inner, outer, congrArg Nat.succ hlen, rfl, rfl⟩
  pop := by
    rintro depth _ _ ⟨_ | ⟨top, inner⟩, outer, hlen, rfl, rfl⟩
    · cases hlen
    · exact ⟨inner, outer, Nat.succ.inj hlen, rfl, rfl⟩

/-- **A block without declarations of its own does what its statements do.** -/
theorem pushed_transparent {ω : Type} [Output ω] (rounds : Nat) {body : List Stmt}
    (h : ∀ s ∈ body, s.declared = []) (t : Stack ω) :
    pushed (executeAll rounds body) t = executeAll rounds body t := by
  have halike := respected_padded.executeAll rounds body 0 (fun _ _ => trivial)
    (fun s hs name hname => absurd hname (h s hs ▸ List.not_mem_nil))
    { t with frames := [] :: t.frames } t ⟨⟨[], t.frames, rfl, rfl, rfl⟩, rfl⟩
  have hpop : ∀ s' t' : Stack ω, Relates Frames.Padded 0 s' t' →
      { s' with frames := s'.frames.tail } = t' := by
    rintro ⟨_, sink⟩ ⟨_, _⟩ ⟨⟨inner, outer, hlen, rfl, rfl⟩, rfl⟩
    obtain rfl := List.length_eq_zero_iff.1 hlen
    rfl
  unfold pushed
  generalize executeAll rounds body { t with frames := [] :: t.frames } = r at halike
  generalize executeAll rounds body t = r' at halike
  cases halike with
  | ok h => rw [through, hpop _ _ h]
  | error h => rw [through, hpop _ _ h]; rfl

end Stack

end Scriptlet
