import Scriptlet.Proofs.Lookups

/-!
# What a write means to every reader

Scopes are shared: several of them may have one parent, and several holders may know one scope.  So a
value that is declared or assigned in one place may be read in another, and which readers see it
depends on the whole graph of scopes.  The law is the same for both kinds of write: the readers that
see the new value are those whose search for the name ends in the scope that was written.

* `Store.resolve?_define` : where names are found after a declaration;
* `Store.get_define` : **who sees a declaration**;
* `Store.get_assign` : **who sees an assignment**;
* `writes_seen_where_resolved` : both laws, with the exact condition under which an assignment fails,
  for every graph of scopes that can be reached.
-/

namespace Scriptlet

namespace Store

variable {store after : Store} {id other home : ScopeId} {name found : String} {value : Value}

/-! ### Where names are found -/

theorem chainUpTo_congr (h : ∀ id, after.parent? id = store.parent? id) :
    ∀ bound id, after.chainUpTo bound id = store.chainUpTo bound id := by
  intro bound
  induction bound with
  | zero => exact fun _ => rfl
  | succ bound ih =>
    intro id
    rw [chainUpTo, chainUpTo, h id]
    cases store.parent? id with
    | none => rfl
    | some parent => exact congrArg (id :: ·) (ih parent)

theorem chain_define (id other : ScopeId) (name : String) (value : Value) :
    (store.define id name value).chain other = store.chain other := by
  rw [chain, chain, size_define]
  exact chainUpTo_congr (fun _ => parent?_define ..) _ _

/-- After a declaration the scope that was written has the name, and all others are as before. -/
theorem resolve?_define (hid : id < store.scopes.size) (other : ScopeId) (name found : String)
    (value : Value) :
    (store.define id name value).resolve? other found =
      (store.chain other).find? fun home =>
        decide (home = id ∧ found = name) || (store.bound? home found).isSome := by
  rw [resolve?, chain_define]
  congr 1
  funext home
  rw [bound?_define _ _ _ _ _ hid]
  by_cases h : home = id ∧ found = name
  · rw [if_pos h, decide_eq_true h]; rfl
  · rw [if_neg h, decide_eq_false h, Bool.false_or]

theorem resolve?_define_of_ne (hid : id < store.scopes.size) (hne : found ≠ name) :
    (store.define id name value).resolve? other found = store.resolve? other found := by
  rw [resolve?_define hid, resolve?]
  simp [hne]

/-- A name that is only given another value is found where it was found. -/
theorem resolve?_define_of_bound (hbound : (store.bound? id name).isSome) :
    (store.define id name value).resolve? other found = store.resolve? other found := by
  rw [resolve?_define (lt_size_of_bound _ hbound), resolve?]
  congr 1
  funext home
  by_cases h : home = id ∧ found = name
  · rw [h.1, h.2, hbound, Bool.or_true]
  · rw [decide_eq_false h, Bool.false_or]

/-- A search that may also stop at one more scope stops there, or where it stopped before. -/
theorem find?_or_eq (id : ScopeId) (p : ScopeId → Bool) (ids : List ScopeId) :
    (ids.find? fun home => decide (home = id) || p home) = some id ∨
      (ids.find? fun home => decide (home = id) || p home) = ids.find? p := by
  induction ids with
  | nil => exact .inr rfl
  | cons home ids ih =>
    rw [List.find?_cons, List.find?_cons]
    by_cases h : home = id
    · rw [decide_eq_true h, h]
      exact .inl rfl
    · rw [decide_eq_false h, Bool.false_or]
      cases p home with
      | true => exact .inr rfl
      | false => exact ih

theorem resolve?_define_cases (hid : id < store.scopes.size) (other : ScopeId) (name : String)
    (value : Value) :
    (store.define id name value).resolve? other name = some id ∨
      (store.define id name value).resolve? other name = store.resolve? other name := by
  rw [resolve?_define hid]
  simpa [resolve?] using find?_or_eq id (fun home => (store.bound? home name).isSome)
    (store.chain other)

/-! ### Who sees a write -/

/-- What is found in the same scope, with the same value there, is read alike. -/
theorem get_congr {token : Token}
    (hhome : after.resolve? other token.lexeme = store.resolve? other token.lexeme)
    (hbound : ∀ home, store.resolve? other token.lexeme = some home →
      after.bound? home token.lexeme = store.bound? home token.lexeme) :
    after.get other token = store.get other token := by
  rw [get, get, hhome]
  cases h : store.resolve? other token.lexeme with
  | none => rfl
  | some home => rw [Option.bind_some, Option.bind_some, hbound home h]

/-- **Who sees a declaration**: those that now find the name in the scope where it was declared. -/
theorem get_define (hid : id < store.scopes.size) (other : ScopeId) (name : String) (value : Value)
    (token : Token) :
    (store.define id name value).get other token =
      if token.lexeme = name ∧ (store.define id name value).resolve? other name = some id then
        .ok value
      else store.get other token := by
  have hbound : ∀ home found, (store.define id name value).bound? home found =
      if home = id ∧ found = name then some value else store.bound? home found :=
    fun home found => bound?_define store id home name value hid found
  by_cases hname : token.lexeme = name
  swap
  · -- another name: no scope has changed what it binds to it
    rw [if_neg fun h => hname h.1]
    refine get_congr (resolve?_define_of_ne hid hname) fun home _ => ?_
    rw [hbound, if_neg fun h => hname h.2]
  by_cases hhome : (store.define id name value).resolve? other name = some id
  · rw [if_pos ⟨hname, hhome⟩, get, hname, hhome, Option.bind_some, hbound, if_pos ⟨rfl, rfl⟩]
  · -- the search ends where it did before, and that is not where the name was declared
    have hsame := (resolve?_define_cases hid other name value).resolve_left hhome
    rw [if_neg fun h => hhome h.2]
    refine get_congr (hname ▸ hsame) fun home hfound => ?_
    have hne : home ≠ id := fun h => hhome (by rw [hsame, ← hname, hfound, h])
    rw [hbound, if_neg fun h => hne h.1]

/-- An assignment that succeeds writes where the name is found. -/
theorem exists_home_of_assign {token : Token} (h : store.assign id token value = .ok after) :
    ∃ home, store.resolve? id token.lexeme = some home ∧
      after = store.define home token.lexeme value := by
  unfold assign at h
  split at h
  · rename_i home hhome
    cases h
    exact ⟨home, hhome, rfl⟩
  · cases h

/-- **Who sees an assignment**: those that found the name where it was found for the assignment. -/
theorem get_assign {token : Token} (h : store.assign id token value = .ok after) (other : ScopeId)
    (read : Token) :
    after.get other read =
      if read.lexeme = token.lexeme ∧
          store.resolve? other token.lexeme = store.resolve? id token.lexeme then
        .ok value
      else store.get other read := by
  obtain ⟨home, hhome, rfl⟩ := exists_home_of_assign h
  have hbound := resolve?_bound hhome
  rw [get_define (lt_size_of_bound _ hbound), resolve?_define_of_bound hbound, hhome]

theorem exists_assign_iff (store : Store) (id : ScopeId) (token : Token) (value : Value) :
    (∃ after, store.assign id token value = .ok after) ↔ ∃ v, store.get id token = .ok v := by
  rw [assign, get]
  cases hhome : store.resolve? id token.lexeme with
  | none => simp
  | some home =>
    obtain ⟨v, hv⟩ := Option.isSome_iff_exists.1 (resolve?_bound hhome)
    simp [hv]

/-- An assignment fails with the error that reading has there. -/
theorem error_of_assign {token : Token} {error : RuntimeError}
    (h : store.assign id token value = .error error) :
    error = undefined token ∧ store.get id token = .error error := by
  rw [assign] at h
  cases hhome : store.resolve? id token.lexeme with
  | none =>
    rw [hhome] at h
    cases h
    exact ⟨rfl, by rw [get, hhome]; rfl⟩
  | some home =>
    rw [hhome] at h
    cases h

end Store

/-- **A write is seen where the name is resolved to what was written.**  Take any scopes that can be
reached, and two handles.  Reading and assigning come to what `get` and `assign` say, each by its own
way along the chain.  After a declaration by the one handle, the other reads the new value if it now
finds the name in the scope of the first, and otherwise what it read before.  An assignment succeeds
if and only if reading does; then the new value is read by whoever found the name in the same scope,
and all else is read as before.  If it fails, it does so with the error of reading, and all scopes
are as they were. -/
theorem writes_seen_where_resolved {ω : Type} [Output ω] {m : Machine ω} (h : m.Reachable)
    {e e' : ScopeId} (he : e < m.store.scopes.size) (he' : e' < m.store.scopes.size)
    (name read : Token) (v : Value) :
    (∀ steps, m.store.scopes.size ≤ steps →
      m.store.reading read steps e' = .ended (m.store.get e' read) ∧
      m.store.assigning name v steps [] e = .ended (overwrite e name v m.store)) ∧
    (m.store.define e name.lexeme v).get e' read =
      (if read.lexeme = name.lexeme ∧
          (m.store.define e name.lexeme v).resolve? e' name.lexeme = some e then .ok v
        else m.store.get e' read) ∧
    ((∃ after, m.store.assign e name v = .ok after) ↔ ∃ w, m.store.get e name = .ok w) ∧
    (∀ after, m.store.assign e name v = .ok after →
      overwrite e name v m.store = .ok v after ∧
      after.get e' read =
        if read.lexeme = name.lexeme ∧
            m.store.resolve? e' name.lexeme = m.store.resolve? e name.lexeme then .ok v
        else m.store.get e' read) ∧
    ∀ error, m.store.assign e name v = .error error →
      overwrite e name v m.store = .error error m.store ∧
      error = ⟨.undefinedVariable name.lexeme, name.line⟩ ∧ m.store.get e name = .error error := by
  have htraversable := h.wellFormed.ordered.traversable
  refine ⟨fun steps hsteps => ⟨?_, ?_⟩, Store.get_define he e' name.lexeme v read,
    m.store.exists_assign_iff e name v, fun after hafter => ⟨?_, Store.get_assign hafter e' read⟩,
    fun error herror => ⟨?_, Store.error_of_assign herror⟩⟩
  · exact htraversable.reads e' he' read steps hsteps
  · exact htraversable.assigns e he name v steps hsteps
  · simp only [overwrite, hafter]
  · simp only [overwrite, herror]

/-- Two scopes under a global one that binds `a`. -/
def siblings : Machine :=
  { Machine.new {} with
    store := (((Machine.new ({} : Sink)).store.define 0 "a" .nil).add (some 0)).add (some 0) }

/-- What one of them assigns is read by the other. -/
theorem siblings_share :
    siblings.Reachable ∧
    ∃ after, siblings.store.assign 1 ⟨.identifier "a", "a", 1⟩ (.boolean true) = .ok after ∧
      after.get 2 ⟨.identifier "a", "a", 2⟩ = .ok (.boolean true) := by
  have hreachable : siblings.Reachable :=
    (((Machine.Reachable.new ({} : Sink)).define 0 "a" .nil).child 0 (by decide)).child 0 (by decide)
  have hlaws := writes_seen_where_resolved hreachable
    (show 1 < siblings.store.scopes.size by decide) (show 2 < siblings.store.scopes.size by decide)
    ⟨.identifier "a", "a", 1⟩ ⟨.identifier "a", "a", 2⟩ (.boolean true)
  obtain ⟨after, hafter⟩ := hlaws.2.2.1.2 ⟨.nil, rfl⟩
  refine ⟨hreachable, after, hafter, ?_⟩
  rw [(hlaws.2.2.2.1 after hafter).2, if_pos ⟨rfl, rfl⟩]

end Scriptlet
