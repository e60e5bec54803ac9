import Scriptlet.Proofs.Reachable
import Scriptlet.Proofs.Stack

/-!
# Linked scopes refine a stack of maps

A machine finds its variables along the chain of the current scope.  Seen from there, the chain is a
stack of maps, and a statement does to the scopes of the chain what it does to the maps.  The scopes
that are not on the chain stay as they were, so the maps tell what the whole store is.

* `Store.Shows` : the scopes of a chain hold given maps, and all else is as in another store;
* `Store.Shows.unique` : there is only one such store;
* `execute_mirrors`, `executeAll_mirrors` : **on a chain of scopes, statements do the same as on a
  stack of maps**;
* `execute_block_of_undeclared` : a block without declarations of its own does what its statements
  do.
-/

namespace Scriptlet

namespace Store

/-- All that a scope binds. -/
def bindings? (store : Store) (id : ScopeId) : Option Bindings :=
  store.scopes[id]?.map Scope.bindings

section

variable (store : Store) (id other : ScopeId) (name : String) (value : Value)

theorem bound?_eq : store.bound? id name = (store.bindings? id).bind (·.find? name) := by
  unfold bound? bindings?
  cases store.scopes[id]? <;> rfl

theorem getElem?_define_of_ne (h : other ≠ id) :
    (store.define id name value).scopes[other]? = store.scopes[other]? := by
  rw [define, Array.getElem?_modify, if_neg (Ne.symm h)]

theorem bindings?_define_self :
    (store.define id name value).bindings? id = (store.bindings? id).map (·.put name value) := by
  rw [bindings?, define, Array.getElem?_modify, if_pos rfl, bindings?]
  cases store.scopes[id]? <;> rfl

theorem bindings?_define_of_ne (h : other ≠ id) :
    (store.define id name value).bindings? other = store.bindings? other := by
  rw [bindings?, getElem?_define_of_ne _ _ _ _ _ h, bindings?]

end

/-! ### Maps on a chain -/

/-- The given scopes hold the given maps, and all else is as in a store that is given. -/
structure Shows (base : Store) (ids : List ScopeId) (store : Store) (frames : Frames) : Prop where
  /-- There are as many scopes as in the given store. -/
  size : store.scopes.size = base.scopes.size
  /-- They have the same parents. -/
  parent : ∀ id, store.parent? id = base.parent? id
  /-- A scope that is not on the chain is the same. -/
  off : ∀ id, id ∉ ids → store.scopes[id]? = base.scopes[id]?
  /-- A scope on the chain holds its map. -/
  on : ids.map store.bindings? = frames.map some

namespace Shows

variable {base store : Store} {here : ScopeId} {ids : List ScopeId} {frames : Frames}
  {name : String} {value : Value}

theorem unique {other : Store} (h : base.Shows ids store frames)
    (h' : base.Shows ids other frames) : store = other := by
  have hscopes : store.scopes = other.scopes := by
    apply Array.ext_getElem?
    intro id
    by_cases hid : id ∈ ids
    · -- on the chain the map is given, and the parent is that of the given store
      have hbindings : store.bindings? id = other.bindings? id :=
        List.map_inj_left.1 (h.on.trans h'.on.symm) id hid
      have hparent : store.parent? id = other.parent? id :=
        (h.parent id).trans (h'.parent id).symm
      unfold bindings? at hbindings
      unfold parent? at hparent
      rcases hs : store.scopes[id]? with _ | ⟨bindings, parent⟩ <;>
        rcases ho : other.scopes[id]? with _ | ⟨bindings', parent'⟩ <;>
        simp_all
    · exact (h.off id hid).trans (h'.off id hid).symm
  cases store
  cases other
  exact congrArg Store.mk hscopes

theorem linked (h : base.Shows ids store frames) (hl : base.Linked here ids) :
    store.Linked here ids :=
  hl.congr (Nat.le_of_eq h.size.symm) fun other _ => h.parent other

/-- A store shows what its own scopes hold. -/
theorem self (hlt : ∀ id ∈ ids, id < base.scopes.size) :
    base.Shows ids base (ids.map fun id => (base.bindings? id).getD []) := by
  refine ⟨rfl, fun _ => rfl, fun _ _ => rfl, ?_⟩
  rw [List.map_map, List.map_inj_left]
  intro id hid
  simp [bindings?, Array.getElem?_eq_getElem (hlt id hid)]

end Shows

theorem find?_of_maps (store : Store) (name : String) : ∀ {ids : List ScopeId} {frames : Frames},
    ids.map store.bindings? = frames.map some →
    (ids.find? fun home => (store.bound? home name).isSome).bind (store.bound? · name) =
      frames.find? name := by
  intro ids
  induction ids with
  | nil =>
    intro frames hon
    rw [List.map_nil, eq_comm, List.map_eq_nil_iff] at hon
    rw [hon]; rfl
  | cons id ids ih =>
    intro frames hon
    cases frames with
    | nil => cases hon
    | cons frame frames =>
      obtain ⟨hid, hrest⟩ := List.cons.inj hon
      have hbound : store.bound? id name = frame.find? name := by rw [bound?_eq, hid]; rfl
      rw [List.find?_cons, Frames.find?, List.findSome?_cons, hbound]
      cases hf : frame.find? name with
      | some v => exact hbound.trans hf
      | none => exact ih hrest

theorem overwrite?_of_maps (store : Store) (name : String) (value : Value) :
    ∀ {ids : List ScopeId} {frames : Frames}, ids.Nodup →
    ids.map store.bindings? = frames.map some →
    (ids.find? (fun home => (store.bound? home name).isSome) = none ∧
      frames.overwrite? name value = none) ∨
    ∃ home ∈ ids, ∃ frames', ids.find? (fun home => (store.bound? home name).isSome) = some home ∧
      frames.overwrite? name value = some frames' ∧
      ids.map (store.define home name value).bindings? = frames'.map some := by
  intro ids
  induction ids with
  | nil =>
    intro frames _ hon
    rw [List.map_nil, eq_comm, List.map_eq_nil_iff] at hon
    rw [hon]
    exact .inl ⟨rfl, rfl⟩
  | cons id ids ih =>
    intro frames hnodup hon
    obtain ⟨hnot, hnodup⟩ := List.nodup_cons.1 hnodup
    cases frames with
    | nil => cases hon
    | cons frame frames =>
      obtain ⟨hid, hrest⟩ := List.cons.inj hon
      have hbound : store.bound? id name = frame.find? name := by rw [bound?_eq, hid]; rfl
      rw [List.find?_cons, hbound, Frames.overwrite?]
      cases hf : (frame.find? name).isSome with
      | true =>
        -- found in the first scope; the others are different scopes, so they keep their maps
        refine .inr ⟨id, List.mem_cons_self, _, rfl, rfl, ?_⟩
        rw [List.map_cons, List.map_cons, bindings?_define_self, hid, ← hrest]
        refine congrArg _ (List.map_inj_left.2 fun other hother => ?_)
        exact bindings?_define_of_ne _ _ _ _ _ fun h => hnot (h ▸ hother)
      | false =>
        rcases ih hnodup hrest with ⟨hnone, hnone'⟩ | ⟨home, hmem, frames', hsome, hsome', hon'⟩
        · refine .inl ⟨hnone, ?_⟩
          rw [hnone']; rfl
        · refine .inr ⟨home, List.mem_cons_of_mem _ hmem, frame :: frames', hsome, ?_, ?_⟩
          · rw [hsome']; rfl
          · rw [List.map_cons, List.map_cons, hon', bindings?_define_of_ne _ _ _ _ _ ?_, hid]
            exact fun h => hnot (h ▸ hmem)

namespace Shows

variable {base store : Store} {here : ScopeId} {ids : List ScopeId} {frames : Frames}

/-- A value written to a scope on the chain. -/
theorem define_of_mem (h : base.Shows ids store frames) {home : ScopeId} (hmem : home ∈ ids)
    {name : String} {value : Value} {frames' : Frames}
    (hon : ids.map (store.define home name value).bindings? = frames'.map some) :
    base.Shows ids (store.define home name value) frames' := by
  refine ⟨(size_define ..).trans h.size, fun id => (parent?_define ..).trans (h.parent id),
    fun id hid => ?_, hon⟩
  have hne : id ≠ home := fun heq => hid (heq ▸ hmem)
  rw [getElem?_define_of_ne _ _ _ _ _ hne, h.off id hid]

theorem lookUp (h : base.Shows ids store frames) (hl : base.Linked here ids) (name : Token) :
    Alike (base.Shows ids) (Scriptlet.lookUp here name store) (Stack.lookUp name frames) := by
  have hfind := find?_of_maps store name.lexeme h.on
  unfold Scriptlet.lookUp Stack.lookUp Store.get Store.resolve?
  rw [(h.linked hl).chain, hfind]
  cases frames.find? name.lexeme with
  | some v => exact .ok h
  | none => exact .error h

theorem overwrite (h : base.Shows ids store frames) (hl : base.Linked here ids) (name : Token)
    (v : Value) :
    Alike (base.Shows ids) (Scriptlet.overwrite here name v store)
      (Stack.overwrite name v frames) := by
  unfold Scriptlet.overwrite Stack.overwrite Store.assign Store.resolve?
  rw [(h.linked hl).chain]
  rcases overwrite?_of_maps store name.lexeme v hl.nodup h.on with
    ⟨hnone, hnone'⟩ | ⟨home, hmem, frames', hsome, hsome', hon⟩
  · rw [hnone, hnone']
    exact .error h
  · rw [hsome, hsome']
    exact .ok (h.define_of_mem hmem hon)

theorem define (h : base.Shows ids store frames) (hl : base.Linked here ids) (name : String)
    (value : Value) : base.Shows ids (store.define here name value) (frames.define name value) := by
  obtain ⟨rest, rfl⟩ := hl.exists_cons
  refine h.define_of_mem List.mem_cons_self ?_
  have hon := h.on
  cases frames with
  | nil => cases hon
  | cons frame frames =>
    obtain ⟨hhere, hrest⟩ := List.cons.inj hon
    rw [List.map_cons, bindings?_define_self, hhere, Frames.define, List.map_cons, ← hrest]
    refine congrArg _ (List.map_inj_left.2 fun other hother => ?_)
    have hnot := (List.nodup_cons.1 hl.nodup).1
    exact bindings?_define_of_ne _ _ _ _ _ fun heq => hnot (heq ▸ hother)

/-- A new scope is an empty map on top. -/
theorem add (h : base.Shows ids store frames) (hl : base.Linked here ids) :
    (store.add (some here)).Shows (store.nextId :: ids) (store.add (some here)) ([] :: frames) := by
  refine ⟨rfl, fun _ => rfl, fun _ _ => rfl, ?_⟩
  rw [List.map_cons, List.map_cons, ← h.on, bindings?, getElem?_add, if_pos rfl]
  refine congrArg _ (List.map_inj_left.2 fun other hother => ?_)
  have hlt : other < store.scopes.size := (h.linked hl).lt_size_of_mem other hother
  have hne : other ≠ store.nextId := Nat.ne_of_lt hlt
  rw [bindings?, getElem?_add, if_neg hne, bindings?]

/-- Once the new scope is removed, the map on top is gone and the others are seen again. -/
theorem drop {inside : Store} {frames' : Frames} (h : base.Shows ids store frames)
    (hl : base.Linked here ids)
    (h' : (store.add (some here)).Shows (store.nextId :: ids) inside frames') :
    base.Shows ids inside.drop frames'.tail := by
  have hsize : inside.scopes.size - 1 = store.scopes.size := by rw [h'.size, size_add]; rfl
  have hget : ∀ id, id < store.scopes.size → inside.drop.scopes[id]? = inside.scopes[id]? := by
    intro id hlt
    rw [getElem?_drop, hsize, if_pos hlt]
  refine ⟨by rw [size_drop, hsize, h.size], fun id => ?_, fun id hid => ?_, ?_⟩
  · rw [parent?_drop, hsize]
    split
    · rename_i hlt
      rw [h'.parent, parent?_add_of_lt _ _ _ hlt, h.parent]
    · rename_i hge
      rw [← h.parent, parent?_of_size_le _ _ (Nat.le_of_not_lt hge)]
  · -- off the chain: an old scope was off the longer chain as well
    by_cases hlt : id < store.scopes.size
    · have hne : id ≠ store.nextId := Nat.ne_of_lt hlt
      have hoff : id ∉ store.nextId :: ids := by
        rintro (_ | ⟨_, hmem⟩)
        · exact hne rfl
        · exact hid hmem
      rw [hget id hlt, h'.off id hoff, getElem?_add, if_neg hne, h.off id hid]
    · rw [← h.off id hid, getElem?_drop, hsize, if_neg hlt,
        Array.getElem?_eq_none (Nat.le_of_not_lt hlt)]
  · have hon := h'.on
    cases frames' with
    | nil => cases hon
    | cons top frames' =>
      rw [List.tail_cons, ← (List.cons.inj hon).2, List.map_inj_left]
      intro id hid
      rw [bindings?, hget id ((h.linked hl).lt_size_of_mem id hid), bindings?]

end Shows

end Store

/-! ### Expressions and statements -/

section Mirrors

variable {ω : Type} {base : Store} {here : ScopeId} {ids : List ScopeId}

theorem eval_mirrors (hl : base.Linked here ids) (e : Expr) :
    Mirrors (base.Shows ids) (eval here e) (Stack.eval e) := by
  induction e with
  | literal v => exact .pure v
  | grouping inner ih => exact ih
  | unary operator operand ih => exact ih.bind fun v => .ofExcept _
  | binary left operator right ihl ihr => exact ihl.bind fun a => ihr.bind fun b => .ofExcept _
  | logical left operator right ihl ihr =>
    refine ihl.bind fun a => ?_
    split
    · exact .pure a
    · exact ihr
  | reference name =>
    rw [eval_reference]
    exact fun store frames h => h.lookUp hl name
  | assign name value ih =>
    rw [eval_assign]
    exact ih.bind fun v store frames h => h.overwrite hl name v

/-- A machine in a given scope shows a stack. -/
structure Machine.Shows {ω : Type} (base : Store) (here : ScopeId) (ids : List ScopeId)
    (m : Machine ω) (t : Stack ω) : Prop where
  /-- The given scope is the current one. -/
  here : m.here = here
  /-- The scopes hold the maps. -/
  store : base.Shows ids m.store t.frames
  /-- Output goes to the same place. -/
  sink : m.sink = t.sink

theorem Machine.Shows.unique {m m' : Machine ω} {t : Stack ω} (h : m.Shows base here ids t)
    (h' : m'.Shows base here ids t) : m = m' := by
  have hstore : m.store = m'.store := h.store.unique h'.store
  have hhere : m.here = m'.here := h.here.trans h'.here.symm
  have hsink : m.sink = m'.sink := h.sink.trans h'.sink.symm
  cases m
  cases m'
  cases hstore
  cases hhere
  cases hsink
  rfl

theorem evaluate_mirrors (hl : base.Linked here ids) (e : Expr) :
    Mirrors (Machine.Shows base here ids) (Exec.evaluate e : ExecOn ω Value)
      (Stack.evaluate e) := by
  rintro m t ⟨rfl, hstore, hsink⟩
  rw [Exec.evaluate_eq]
  exact (eval_mirrors hl e _ _ hstore).through fun _ _ h => ⟨rfl, h, hsink⟩

theorem printLine_mirrors [Output ω] (v : Value) (line : Nat) :
    Mirrors (Machine.Shows base here ids) (Exec.printLine v line : ExecOn ω Unit)
      (Stack.printLine v line) := by
  rintro m t ⟨hhere, hstore, hsink⟩
  rw [Exec.printLine_eq, Stack.printLine, hsink]
  refine (Alike.refl _).through ?_
  rintro sink _ rfl
  exact ⟨hhere, hstore, rfl⟩

theorem define_mirrors (hl : base.Linked here ids) (name : String) (value : Value) :
    Mirrors (Machine.Shows base here ids) (Exec.define name value : ExecOn ω Unit)
      (Stack.define name value) := by
  rintro m t ⟨rfl, hstore, hsink⟩
  exact .ok ⟨rfl, hstore.define hl name value, hsink⟩

theorem withinNew_mirrors (hl : base.Linked here ids) {x : ExecOn ω Unit}
    {y : EStateM Stop (Stack ω) Unit}
    (hxy : ∀ base here ids, base.Linked here ids → Mirrors (Machine.Shows base here ids) x y) :
    Mirrors (Machine.Shows base here ids) (Exec.withinNew x) (Stack.pushed y) := by
  rintro m t ⟨rfl, hstore, hsink⟩
  rw [Exec.withinNew_eq]
  have hinside := hxy m.inner.store m.inner.here (m.store.nextId :: ids) (hstore.linked hl).add
    m.inner { t with frames := [] :: t.frames } ⟨rfl, hstore.add hl, hsink⟩
  exact hinside.through fun _ _ h => ⟨rfl, hstore.drop hl h.store, h.sink⟩

end Mirrors

section

variable {ω : Type} [Output ω]

mutual

/-- **On a chain of scopes a statement does the same as on a stack of maps.** -/
theorem execute_mirrors (rounds : Nat) :
    ∀ (s : Stmt) (base : Store) (here : ScopeId) (ids : List ScopeId), base.Linked here ids →
      Mirrors (Machine.Shows base here ids) (execute rounds s : ExecOn ω Unit)
        (Stack.execute rounds s)
  | .print value, _, _, _, hl => (evaluate_mirrors hl value).bind fun v => printLine_mirrors v _
  | .expression e, _, _, _, hl => (evaluate_mirrors hl e).bind fun v => .pure _
  | .var name none, _, _, _, hl => define_mirrors hl _ _
  | .var name (some init), _, _, _, hl =>
    (evaluate_mirrors hl init).bind fun v => define_mirrors hl _ _
  | .block body, _, _, _, hl => withinNew_mirrors hl (executeAll_mirrors rounds body)
  | .branch condition yes none, base, here, ids, hl => by
    refine (evaluate_mirrors hl condition).bind fun v => ?_
    split
    · exact execute_mirrors rounds yes base here ids hl
    · exact .pure ()
  | .branch condition yes (some no), base, here, ids, hl => by
    refine (evaluate_mirrors hl condition).bind fun v => ?_
    split
    · exact execute_mirrors rounds yes base here ids hl
    · exact execute_mirrors rounds no base here ids hl
  | .loop condition body, base, here, ids, hl => by
    rw [execute, Exec.repeatWhile_eq]
    exact .whileTrue (evaluate_mirrors hl condition) (execute_mirrors rounds body base here ids hl) _
termination_by structural s => s

theorem executeAll_mirrors (rounds : Nat) :
    ∀ (body : List Stmt) (base : Store) (here : ScopeId) (ids : List ScopeId),
      base.Linked here ids →
      Mirrors (Machine.Shows base here ids) (executeAll rounds body : ExecOn ω Unit)
        (Stack.executeAll rounds body)
  | [], _, _, _, _ => .pure ()
  | s :: rest, base, here, ids, hl =>
    (execute_mirrors rounds s base here ids hl).bind fun _ =>
      executeAll_mirrors rounds rest base here ids hl
termination_by structural body => body

end

/-! ### Blocks that nobody notices -/

/-- **A block without declarations of its own does what its statements do**, in every respect. -/
theorem execute_block_of_undeclared (rounds : Nat) {body : List Stmt} {m : Machine ω}
    (hm : m.WellFormed) (h : ∀ s ∈ body, s.declared = []) :
    execute rounds (.block body) m = executeAll rounds body m := by
  obtain ⟨ids, hl⟩ := hm.ordered.exists_linked hm.here
  let t : Stack ω := ⟨ids.map fun id => (m.store.bindings? id).getD [], m.sink⟩
  have hshows : m.Shows m.store m.here ids t := ⟨rfl, .self hl.lt_size_of_mem, rfl⟩
  have hblock := execute_mirrors rounds (.block body) m.store m.here ids hl m t hshows
  have hbody := executeAll_mirrors rounds body m.store m.here ids hl m t hshows
  rw [Stack.execute, Stack.pushed_transparent rounds h] at hblock
  -- both end as the stack does, and the stack tells the machine
  refine hblock.eq_of_unique ?_ hbody
  exact Machine.Shows.unique

end

end Scriptlet
