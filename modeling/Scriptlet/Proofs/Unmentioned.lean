import Scriptlet.Proofs.StackSessions

/-!
# Variables that a program does not mention

A program neither sees nor touches the global variables that do not occur in it.  Two machines may
have different ones: as long as they agree on the names that a program mentions, it does the same on
both, and leaves each of them all the others as they were.

On stacks of maps the two runs go side by side.  A block only ever puts maps on top that are the
same on both sides, so all that can differ is at the bottom of the two stacks.

* `Machine.global?` : a global variable of a machine that is in its global scope;
* `Frames.Confined` : stacks of maps that differ at the bottom at most, in certain names;
* `Stack.respected_confined` : a program that does not mention these names cannot tell them apart;
* `unmentioned_not_seen_not_touched` : **machines that agree on the variables of a program run it
  alike**, agree on them afterwards, and keep all other variables.
-/

namespace Scriptlet

/-! ### Stacks of maps that differ at the bottom -/

/-- Two maps came from two others and agree on certain names; all other names have kept the values
that they had before. -/
structure Bindings.Confined (names : List String) (before before' after after' : Bindings) :
    Prop where
  /-- The names have the same values in both. -/
  on : ∀ name ∈ names, after.find? name = after'.find? name
  /-- The others are as they were in the first map. -/
  off : ∀ name ∉ names, after.find? name = before.find? name
  /-- They are as they were in the second map. -/
  off' : ∀ name ∉ names, after'.find? name = before'.find? name

/-- Two stacks of maps with the same maps above their last ones, which agree on certain names. -/
inductive Frames.Confined (names : List String) (before before' : Bindings) :
    Nat → Frames → Frames → Prop
  | bottom {after after' : Bindings} (h : Bindings.Confined names before before' after after') :
      Confined names before before' 0 [after] [after']
  | above (frame : Bindings) {depth : Nat} {frames frames' : Frames}
      (h : Confined names before before' depth frames frames') :
      Confined names before before' (depth + 1) (frame :: frames) (frame :: frames')

section

variable {names : List String} {before before' : Bindings} {name : String}

theorem Bindings.Confined.put {after after' : Bindings}
    (h : Bindings.Confined names before before' after after') (hname : name ∈ names)
    (value : Value) :
    Bindings.Confined names before before' (after.put name value) (after'.put name value) where
  on other hother := by rw [find?_put, find?_put, h.on other hother]
  off other hother := by
    rw [find?_put, if_neg (ne_of_mem_of_not_mem hname hother).symm, h.off other hother]
  off' other hother := by
    rw [find?_put, if_neg (ne_of_mem_of_not_mem hname hother).symm, h.off' other hother]

namespace Frames.Confined

variable {depth : Nat} {frames frames' : Frames}

theorem find? (h : Confined names before before' depth frames frames') (hname : name ∈ names) :
    frames.find? name = frames'.find? name := by
  induction h with
  | bottom h => simp only [Frames.find?, List.findSome?_cons, h.on name hname]
  | above frame _ ih =>
    simp only [Frames.find?, List.findSome?_cons] at ih ⊢
    rw [ih]

theorem overwrite? (h : Confined names before before' depth frames frames')
    (hname : name ∈ names) (value : Value) :
    (frames.overwrite? name value = none ∧ frames'.overwrite? name value = none) ∨
      ∃ a a', frames.overwrite? name value = some a ∧ frames'.overwrite? name value = some a' ∧
        Confined names before before' depth a a' := by
  induction h with
  | bottom h =>
    simp only [Frames.overwrite?, h.on name hname]
    split
    · exact .inr ⟨_, _, rfl, rfl, .bottom (h.put hname value)⟩
    · exact .inl ⟨rfl, rfl⟩
  | above frame h ih =>
    rw [Frames.overwrite?, Frames.overwrite?]
    split
    · -- found in a map that both stacks have, so both get the same one
      exact .inr ⟨_, _, rfl, rfl, .above _ h⟩
    · rcases ih with ⟨ha, ha'⟩ | ⟨a, a', ha, ha', h'⟩
      · exact .inl ⟨by rw [ha]; rfl, by rw [ha']; rfl⟩
      · exact .inr ⟨_, _, by rw [ha]; rfl, by rw [ha']; rfl, .above frame h'⟩

theorem define (h : Confined names before before' depth frames frames') (hname : name ∈ names)
    (value : Value) :
    Confined names before before' depth (frames.define name value) (frames'.define name value) := by
  cases h with
  | bottom h => exact .bottom (h.put hname value)
  | above frame h => exact .above _ h

end Frames.Confined

/-- What differs in names that a program does not mention makes no difference to it. -/
theorem Stack.respected_confined (names : List String) (before before' : Bindings) :
    Respected (Frames.Confined names before before') (· ∈ names) fun _ name => name ∈ names where
  find h hname := h.find? hname
  overwrite h hname value := h.overwrite? hname value
  define h hname value := h.define hname value
  inner hname := hname
  push h := .above [] h
  pop := by
    rintro depth _ _ ⟨⟩
    assumption

end

/-! ### Machines in their global scope -/

namespace Machine

variable {ω : Type}

/-- The current scope has no parent, so what it binds are the global variables. -/
structure AtTop (m : Machine ω) : Prop where
  /-- The current scope exists. -/
  here : m.here < m.store.scopes.size
  /-- It has no parent. -/
  root : m.store.parent? m.here = none

/-- The value of a global variable. -/
def global? (m : Machine ω) (name : String) : Option Value := m.store.bound? m.here name

/-- Two machines came from two others, agree on certain global variables and on all output, and have
kept all other variables. -/
structure Confined (names : List String) (m m' after after' : Machine ω) : Prop where
  /-- The first is in its global scope. -/
  top : after.AtTop
  /-- The second is in its global scope. -/
  top' : after'.AtTop
  /-- They have written and flushed the same. -/
  sink : after.sink = after'.sink
  /-- The names have the same values in both. -/
  on : ∀ name ∈ names, after.global? name = after'.global? name
  /-- The first has kept all other names. -/
  off : ∀ name ∉ names, after.global? name = m.global? name
  /-- The second has kept all other names. -/
  off' : ∀ name ∉ names, after'.global? name = m'.global? name

/-- A program runs for ever: with no number of rounds it comes to an end. -/
def RunsForEver [Output ω] (program : List Stmt) (m : Machine ω) : Prop :=
  ∀ rounds, ∃ last, interpret rounds program m = .error .outOfRounds last

section

variable {base : Store} {here : ScopeId} {m : Machine ω} {t : Stack ω}

theorem AtTop.linked (hm : m.AtTop) : m.store.Linked m.here [m.here] := .root hm.here hm.root

/-- A machine in its global scope shows a stack of one map. -/
theorem AtTop.shows (hm : m.AtTop) :
    m.Shows m.store m.here [m.here] ⟨[(m.store.bindings? m.here).getD []], m.sink⟩ where
  here := rfl
  store := .self hm.linked.lt_size_of_mem
  sink := rfl

theorem Shows.atTop (h : m.Shows base here [here] t) (hlt : here < base.scopes.size)
    (hroot : base.parent? here = none) : m.AtTop where
  here := by rw [h.here, h.store.size]; exact hlt
  root := by rw [h.here, h.store.parent]; exact hroot

theorem Shows.global?_eq {globals : Bindings} (h : m.Shows base here [here] t)
    (ht : t.frames = [globals]) (name : String) : m.global? name = globals.find? name := by
  obtain ⟨_, hbindings, hframes⟩ := h.exists_globals
  obtain rfl := (List.cons.inj (hframes.symm.trans ht)).1
  rw [global?, Store.bound?_eq, hbindings, Option.bind_some]

end

end Machine

/-! ### Two machines side by side -/

section

variable {ω : Type} [Output ω] {program : List Stmt} {m m' : Machine ω}

/-- With any number of rounds the two runs end alike. -/
theorem interpret_confined (hm : m.AtTop) (hm' : m'.AtTop)
    (hglobals : ∀ name ∈ Stmt.allMentions program, m.global? name = m'.global? name)
    (hsink : m.sink = m'.sink) (rounds : Nat) :
    Alike (Machine.Confined (Stmt.allMentions program) m m') (interpret rounds program m)
      (interpret rounds program m') := by
  have hbefore := hm.shows.global?_eq rfl
  have hbefore' := hm'.shows.global?_eq rfl
  -- what each machine does on its scopes, a stack does on one map
  have hleft := interpret_mirrors hm.linked rounds program m _ hm.shows
  have hright := interpret_mirrors hm'.linked rounds program m' _ hm'.shows
  generalize (m.store.bindings? m.here).getD [] = before at hbefore hleft
  generalize (m'.store.bindings? m'.here).getD [] = before' at hbefore' hright
  have hagree : Bindings.Confined (Stmt.allMentions program) before before' before before' :=
    ⟨fun name hname => by rw [← hbefore, ← hbefore', hglobals name hname], fun _ _ => rfl,
      fun _ _ => rfl⟩
  have hstacks := (Stack.respected_confined _ before before').interpret rounds
    (fun _ hname => hname)
    (fun s hs name hname => Stmt.mem_allMentions (s.declared_subset_mentions hname) hs)
    ⟨[before], m.sink⟩ ⟨[before'], m'.sink⟩ ⟨.bottom hagree, hsink⟩
  refine ((hleft.trans hstacks).trans hright.symm).mono ?_
  rintro after after' ⟨t', ⟨t, hshows, hmaps, hsinks⟩, hshows'⟩
  generalize hframes : t.frames = frames, hframes' : t'.frames = frames' at hmaps
  cases hmaps with
  | bottom h =>
    have hafter := hshows.global?_eq hframes
    have hafter' := hshows'.global?_eq hframes'
    refine ⟨hshows.atTop hm.here hm.root, hshows'.atTop hm'.here hm'.root,
      hshows.sink.trans (hsinks.trans hshows'.sink.symm), fun name hname => ?_,
      fun name hname => ?_, fun name hname => ?_⟩
    · rw [hafter, hafter', h.on name hname]
    · rw [hafter, hbefore, h.off name hname]
    · rw [hafter', hbefore', h.off' name hname]

/-- **A program neither sees nor touches variables that it does not mention.**  On two machines in
their global scopes that agree on the variables it mentions, and whose sinks are the same, it comes
to the same result with the same output and the same flushes, or runs for ever on both.  The
machines then agree on these variables again, and each has kept all its others. -/
theorem unmentioned_not_seen_not_touched (hm : m.AtTop) (hm' : m'.AtTop)
    (hglobals : ∀ name ∈ Stmt.allMentions program, m.global? name = m'.global? name)
    (hsink : m.sink = m'.sink) :
    (∀ rounds, Alike (Machine.Confined (Stmt.allMentions program) m m')
      (interpret rounds program m) (interpret rounds program m')) ∧
    (m.RunsForEver program ↔ m'.RunsForEver program) := by
  have halike := interpret_confined hm hm' hglobals hsink
  refine ⟨halike, forall_congr' fun rounds => ?_⟩
  have h := halike rounds
  generalize interpret rounds program m = r, interpret rounds program m' = r' at h ⊢
  cases h with
  | ok h => simp
  | error h => simp

end

/-- A machine with one global variable, `a`. -/
def Machine.withGlobal (value : Value) : Machine :=
  { Machine.new {} with store := (Machine.new ({} : Sink)).store.define 0 "a" value }

/-- A program that fails with one value of `a`, which it does not mention, fails with another, and
`a` keeps its value. -/
theorem failure_without_mention :
    let program : List Stmt :=
      [.block [.var ⟨.identifier "b", "b", 1⟩ (some (.literal (.boolean true)))],
        .print (.reference ⟨.identifier "c", "c", 2⟩)]
    ∃ after after',
      interpret 0 program (.withGlobal .nil) =
        .error (.error ⟨.undefinedVariable "c", 2⟩) after ∧ after.global? "a" = some .nil ∧
      interpret 0 program (.withGlobal (.boolean true)) =
        .error (.error ⟨.undefinedVariable "c", 2⟩) after' ∧
      after'.global? "a" = some (.boolean true) := by
  intro program
  have hglobals : ∀ name ∈ Stmt.allMentions program, (Machine.withGlobal .nil).global? name =
      (Machine.withGlobal (.boolean true)).global? name := by decide
  have h := (unmentioned_not_seen_not_touched ⟨by decide, rfl⟩ ⟨by decide, rfl⟩ hglobals rfl).1 0
  have hrun : ∃ after, interpret 0 program (.withGlobal .nil) =
      .error (.error ⟨.undefinedVariable "c", 2⟩) after := ⟨_, rfl⟩
  obtain ⟨after, hafter⟩ := hrun
  rw [hafter] at h ⊢
  generalize interpret 0 program (.withGlobal (.boolean true)) = r at h
  cases h with
  | @error _ _ after' h =>
    exact ⟨after, after', rfl, h.off "a" (by decide), rfl, h.off' "a" (by decide)⟩

end Scriptlet
