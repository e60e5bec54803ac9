import Scriptlet.Proofs.Segments

/-!
# Nested lists as text

A tree can be shown as nested lists: a **form** is an atom, or a list that starts with a word for
what it is and goes on with its items.  The text of a list stands between parentheses, with spaces
between its parts.

Atoms are texts between quotes, in which anything but a quote may stand, and texts without blanks,
parentheses and quotes.  Under these rules the text of a form says where it ends, so it can be taken
off whatever follows it, and no two forms have the same text.

* `Form.text` : the text of a form;
* `Form.Proper` : every atom in a form obeys the rules;
* `Form.text_append_injective` : **the text of a form can be told from what follows it**;
* `Form.text_injective` : **a form is determined by its text.**
-/

namespace Scriptlet

open Segment

/-- Nested lists. -/
inductive Form where
  /-- A text that is no list. -/
  | atom (text : String)
  /-- A list, with the word that it starts with. -/
  | list (head : String) (items : List Form)

namespace Form

mutual

/-- The text of a form. -/
def text : Form → String
  | atom s => s
  | list head items => "(" ++ head ++ listText items ++ ")"
termination_by structural f => f

/-- The texts of forms, a space before each. -/
def listText : List Form → String
  | [] => ""
  | f :: rest => " " ++ f.text ++ listText rest
termination_by structural items => items

end

/-- Whether a character may stand in an atom without quotes. -/
def isPlain (c : Char) : Bool := c != ' ' && c != '(' && c != ')' && c != '"'

/-- A text without blanks, parentheses and quotes. -/
def Plain (s : String) : Prop := s ≠ "" ∧ s.toList.all isPlain = true

instance (s : String) : Decidable (Plain s) := inferInstanceAs (Decidable (_ ∧ _))

/-- A text between quotes. -/
def Quoted (s : String) : Prop := ∃ body, s = "\"" ++ body ++ "\"" ∧ '"' ∉ body.toList

mutual

/-- Every atom is plain or quoted, and every list starts with a plain word. -/
def Proper : Form → Prop
  | atom s => Plain s ∨ Quoted s
  | list head items => Plain head ∧ AllProper items
termination_by structural f => f

/-- All of the forms are proper. -/
def AllProper : List Form → Prop
  | [] => True
  | f :: rest => f.Proper ∧ AllProper rest
termination_by structural items => items

end

/-! ### Atoms -/

variable {s t : String} {r r' : List Char}

theorem Plain.append_injective (hs : Plain s) (ht : Plain t) (hr : Breaks isPlain r)
    (hr' : Breaks isPlain r') (h : s.toList ++ r = t.toList ++ r') : s = t ∧ r = r' := by
  have hchars := congrArg (List.takeWhile isPlain) h
  rw [takeWhile_of_breaks (List.all_eq_true.1 hs.2) hr,
    takeWhile_of_breaks (List.all_eq_true.1 ht.2) hr'] at hchars
  exact ⟨String.toList_inj.1 hchars, List.append_cancel_left (hchars ▸ h)⟩

theorem Plain.exists_cons (hs : Plain s) : ∃ c cs, s.toList = c :: cs ∧ isPlain c = true := by
  obtain ⟨c, cs, hcs⟩ := List.exists_cons_of_ne_nil fun h => hs.1 (String.toList_eq_nil_iff.1 h)
  exact ⟨c, cs, hcs, List.all_eq_true.1 hs.2 c (by rw [hcs]; exact List.mem_cons_self)⟩

theorem Quoted.append_injective (hs : Quoted s) (ht : Quoted t)
    (h : s.toList ++ r = t.toList ++ r') : s = t ∧ r = r' := by
  obtain ⟨body, rfl, hbody⟩ := hs
  obtain ⟨body', rfl, hbody'⟩ := ht
  have hquoted : ∀ (body : String) (r : List Char),
      ("\"" ++ body ++ "\"").toList ++ r = '"' :: (body.toList ++ '"' :: r) := by simp
  rw [hquoted, hquoted] at h
  -- both bodies reach to the first quote
  have hsame := congrArg quoted (List.cons.inj h).2
  rw [quoted_string hbody, quoted_string hbody'] at hsame
  obtain ⟨hstring, hrest⟩ := Prod.mk.inj hsame
  exact ⟨by rw [String.toList_inj.1 (Segment.string.inj hstring)], hrest⟩

theorem Quoted.head_eq (hs : Quoted s) : ∃ cs, s.toList = '"' :: cs := by
  obtain ⟨body, rfl, -⟩ := hs
  exact ⟨body.toList ++ ['"'], by simp⟩

/-! ### Forms -/

theorem toList_text_list (head : String) (items : List Form) (r : List Char) :
    (list head items).text.toList ++ r =
      '(' :: (head.toList ++ ((listText items).toList ++ ')' :: r)) := by
  simp [text]

theorem toList_listText_cons (f : Form) (rest : List Form) (r : List Char) :
    (listText (f :: rest)).toList ++ r =
      ' ' :: (f.text.toList ++ ((listText rest).toList ++ r)) := by
  simp [listText]

theorem breaks_listText (items : List Form) (r : List Char) :
    Breaks isPlain ((listText items).toList ++ ')' :: r) := by
  cases items with
  | nil => rintro c ⟨⟩; rfl
  | cons f rest =>
    rw [toList_listText_cons]
    rintro c ⟨⟩
    rfl

/-- An atom does not start like a list. -/
theorem toList_text_atom_ne (hs : (atom s).Proper) (head : String) (items : List Form) :
    s.toList ++ r ≠ (list head items).text.toList ++ r' := by
  rw [toList_text_list]
  intro h
  rcases hs with hs | hs
  · obtain ⟨c, cs, hcs, hc⟩ := hs.exists_cons
    rw [hcs] at h
    obtain rfl := (List.cons.inj h).1
    cases hc
  · obtain ⟨cs, hcs⟩ := hs.head_eq
    rw [hcs] at h
    cases h

theorem atom_append_injective (hs : (atom s).Proper) (ht : (atom t).Proper)
    (hr : Breaks isPlain r) (hr' : Breaks isPlain r') (h : s.toList ++ r = t.toList ++ r') :
    s = t ∧ r = r' := by
  have hne : ∀ {s t : String} {r r' : List Char}, Plain s → Quoted t →
      s.toList ++ r ≠ t.toList ++ r' := by
    intro s t r r' hs ht h
    obtain ⟨c, cs, hcs, hc⟩ := hs.exists_cons
    obtain ⟨cs', hcs'⟩ := ht.head_eq
    rw [hcs, hcs'] at h
    obtain rfl := (List.cons.inj h).1
    cases hc
  rcases hs with hs | hs <;> rcases ht with ht | ht
  · exact hs.append_injective ht hr hr' h
  · exact absurd h (hne hs ht)
  · exact absurd h.symm (hne ht hs)
  · exact hs.append_injective ht h

mutual

/-- **The text of a form can be told from what follows it**, if that does not prolong an atom. -/
theorem text_append_injective : ∀ {f g : Form}, f.Proper → g.Proper → ∀ {r r' : List Char},
    Breaks isPlain r → Breaks isPlain r' → f.text.toList ++ r = g.text.toList ++ r' →
      f = g ∧ r = r'
  | .atom s, .atom t, hf, hg, r, r', hr, hr', h => by
    obtain ⟨rfl, hrest⟩ := atom_append_injective hf hg hr hr' h
    exact ⟨rfl, hrest⟩
  | .atom _, .list _ _, hf, _, _, _, _, _, h => absurd h (toList_text_atom_ne hf _ _)
  | .list _ _, .atom _, _, hg, _, _, _, _, h => absurd h.symm (toList_text_atom_ne hg _ _)
  | .list head items, .list head' items', hf, hg, r, r', _, _, h => by
    rw [toList_text_list, toList_text_list] at h
    obtain ⟨rfl, hitems⟩ := hf.1.append_injective hg.1 (breaks_listText items r)
      (breaks_listText items' r') (List.cons.inj h).2
    obtain ⟨rfl, hrest⟩ := listText_append_injective hf.2 hg.2 hitems
    exact ⟨rfl, hrest⟩
termination_by structural f => f

/-- The items of a list reach to its end. -/
theorem listText_append_injective : ∀ {fs gs : List Form}, AllProper fs → AllProper gs →
    ∀ {r r' : List Char}, (listText fs).toList ++ ')' :: r = (listText gs).toList ++ ')' :: r' →
      fs = gs ∧ r = r'
  | [], [], _, _, r, r', h => ⟨rfl, (List.cons.inj h).2⟩
  | [], g :: gs, _, _, r, r', h => by
    rw [toList_listText_cons] at h
    cases h
  | f :: fs, [], _, _, r, r', h => by
    rw [toList_listText_cons] at h
    cases h
  | f :: fs, g :: gs, hfs, hgs, r, r', h => by
    rw [toList_listText_cons, toList_listText_cons] at h
    obtain ⟨rfl, hitems⟩ := text_append_injective hfs.1 hgs.1 (breaks_listText fs r)
      (breaks_listText gs r') (List.cons.inj h).2
    obtain ⟨rfl, hrest⟩ := listText_append_injective hfs.2 hgs.2 hitems
    exact ⟨rfl, hrest⟩
termination_by structural fs => fs

end

/-- **A form is determined by its text.** -/
theorem text_injective {f g : Form} (hf : f.Proper) (hg : g.Proper) (h : f.text = g.text) :
    f = g :=
  have hbreaks : Breaks isPlain [] := nofun
  (text_append_injective hf hg hbreaks hbreaks (by rw [h])).1

end Form

end Scriptlet
