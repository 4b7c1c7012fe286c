import Mathlib.Data.Finset.Card
import Scriptorium.Proofs.ArenaGrowth

/-!
# The numbers of names

A name table is asked in two directions, for the number of a text and for the text of a
number.  Entering texts, new ones and known ones in any order, keeps the two answers inverse
to each other, and a number keeps its text for good.

* `NameTable.enter` — enters texts one after the other and lists the numbers that they get;
* `NameTable.Distinct` — no text has two numbers, and entering texts keeps it that way;
* `NameTable.find?_eq_some_iff` — the number of a text and the text of a number;
* `NameTable.texts_enter` — the texts of a table stand in the order in which they first came;
* `names_numbered` — all of this for the texts that are entered into a new table.
-/

namespace Scriptorium

namespace NameTable

variable {t : NameTable} {text : String} {name : NameId}

/-- Enters texts, one after the other: their numbers, and the table after all of them. -/
def enter (t : NameTable) : List String → List NameId × NameTable
  | [] => ([], t)
  | text :: texts =>
      let first := t.intern text
      let rest := first.2.enter texts
      (first.1 :: rest.1, rest.2)

/-- No text has two numbers. -/
def Distinct (t : NameTable) : Prop := t.texts.toList.Nodup

/-! ## The two directions -/

theorem find?_eq_none_iff : t.find? text = none ↔ text ∉ t.texts.toList := by
  rw [find?, Option.map_eq_none_iff, Array.idxOf?_eq_none_iff, Array.mem_toList_iff]

theorem exists_find? (h : text ∈ t.texts.toList) : ∃ name, t.find? text = some name :=
  Option.ne_none_iff_exists'.1 fun hnone => find?_eq_none_iff.1 hnone h

/-- In a table of distinct texts, a text has the number under which it is found. -/
theorem find?_eq_some_iff (h : t.Distinct) :
    t.find? text = some name ↔ t.text? name = some text := by
  refine ⟨find?_eq_some, fun htext => ?_⟩
  have hentry : t.texts.toList[name.index]? = some text := by
    rwa [Array.getElem?_toList]
  obtain ⟨other, hfind⟩ := exists_find? (List.mem_of_getElem? hentry)
  have hother : t.texts.toList[other.index]? = some text := by
    rw [Array.getElem?_toList]
    exact find?_eq_some hfind
  have hlt : other.index < t.texts.toList.length := (List.getElem?_eq_some_iff.1 hother).1
  have hindex : other.index = name.index :=
    (List.getElem?_inj hlt h).1 (hother.trans hentry.symm)
  rw [hfind, show other = name from congrArg NameId.mk hindex]

/-! ## Entering one text -/

/-- A text that has a number keeps it, and the table stays as it is. -/
theorem intern_of_find? (h : t.find? text = some name) : t.intern text = (name, t) := by
  rw [intern, h]

/-- A text that is new comes after all others. -/
theorem texts_intern (t : NameTable) (text : String) :
    (t.intern text).2.texts.toList =
      if text ∈ t.texts.toList then t.texts.toList else t.texts.toList ++ [text] := by
  split
  · next hmem =>
    obtain ⟨name, hfind⟩ := exists_find? hmem
    rw [intern_of_find? hfind]
  · next habsent => rw [intern, find?_eq_none_iff.2 habsent, Array.toList_push]

theorem Distinct.intern (h : t.Distinct) (text : String) : (t.intern text).2.Distinct := by
  rw [Distinct, texts_intern]
  split
  · exact h
  · next habsent =>
    rw [← List.concat_eq_append, List.nodup_concat]
    exact ⟨habsent, h⟩

/-! ## Entering texts -/

theorem Distinct.enter (h : t.Distinct) (texts : List String) : (t.enter texts).2.Distinct := by
  induction texts generalizing t with
  | nil => exact h
  | cons text texts ih => exact ih (h.intern text)

theorem grows_enter (t : NameTable) (texts : List String) :
    Grows t.texts (t.enter texts).2.texts := by
  induction texts generalizing t with
  | nil => exact .refl _
  | cons text texts ih => exact (grows_intern t text).trans (ih _)

/-- A number keeps its text, whatever is entered later. -/
theorem text?_enter (h : t.text? name = some text) (texts : List String) :
    (t.enter texts).2.text? name = some text :=
  (grows_enter t texts).getElem?_eq h

/-- In the end, each text is found under the number that it got. -/
theorem enter_numbers (t : NameTable) (texts : List String) :
    List.Forall₂ (fun text name => (t.enter texts).2.text? name = some text) texts
      (t.enter texts).1 := by
  induction texts generalizing t with
  | nil => exact .nil
  | cons text texts ih => exact .cons (text?_enter (text?_intern t text) texts) (ih _)

/-- The texts that a table did not hold come after the others, in the order in which they
first came. -/
theorem texts_enter (t : NameTable) (texts : List String) :
    (t.enter texts).2.texts.toList =
      t.texts.toList ++ (texts.removeAll t.texts.toList).eraseDups := by
  induction texts generalizing t with
  | nil => simp [enter]
  | cons text texts ih =>
    show ((t.intern text).2.enter texts).2.texts.toList = _
    rw [ih, texts_intern]
    split
    · next hmem =>
      rw [List.removeAll, List.removeAll, List.filter_cons_of_neg (by simpa using hmem)]
    · next habsent =>
      have hrest : texts.removeAll (t.texts.toList ++ [text]) =
          (texts.removeAll t.texts.toList).filter fun other => !other == text := by
        simp [List.removeAll, List.filter_filter, Bool.and_comm, beq_eq_decide]
      rw [hrest, List.append_assoc, List.singleton_append, ← List.eraseDups_cons,
        List.removeAll, List.removeAll, List.filter_cons_of_pos (by simpa using habsent)]

theorem distinct_empty : empty.Distinct := by simp [Distinct, empty]

/-- The texts that were entered into a new table, each where it first came. -/
theorem texts_enter_empty (texts : List String) :
    (empty.enter texts).2.texts.toList = ("" :: texts).eraseDups := by
  rw [texts_enter, List.eraseDups_cons]
  show [""] ++ (texts.removeAll [""]).eraseDups = _
  rw [List.removeAll_cons, List.removeAll_nil, List.singleton_append]

/-- A table of distinct texts has as many entries as there are texts in it. -/
theorem Distinct.size_eq (h : t.Distinct) : t.size = t.texts.toList.toFinset.card := by
  rw [List.toFinset_card_of_nodup h, size, Array.length_toList]

end NameTable

/-- Texts are entered into a new table, one after the other.

* Each of them has the number that it got when it came: entering it again gives this number
  and leaves the table as it is, and its number has this text.  Nothing that is entered later
  changes the text of a number.
* Two of the texts have the same number only if they are the same.  What number a text has and
  what text a number has are two sides of one relation.
* Number zero has the empty text.
* There is one entry more than there are texts that are not empty, each counted once, and
  the entries stand in the order in which the texts first came. -/
theorem names_numbered (texts : List String) :
    let names := (NameTable.empty.enter texts).1
    let t := (NameTable.empty.enter texts).2
    List.Forall₂ (fun text name => t.intern text = (name, t) ∧ t.text? name = some text)
      texts names ∧
    (∀ name text more, t.text? name = some text → (t.enter more).2.text? name = some text) ∧
    (∀ text ∈ texts, ∀ other ∈ texts, (t.intern text).1 = (t.intern other).1 ↔ text = other) ∧
    (∀ text name, t.find? text = some name ↔ t.text? name = some text) ∧
    t.text? ⟨0⟩ = some "" ∧
    t.size = (texts.toFinset.erase "").card + 1 ∧
    t.texts.toList = ("" :: texts).eraseDups := by
  intro names t
  have hdistinct : t.Distinct := NameTable.distinct_empty.enter texts
  have htexts : t.texts.toList = ("" :: texts).eraseDups := NameTable.texts_enter_empty texts
  have hmem : ∀ text ∈ texts, text ∈ t.texts.toList := fun text h => by
    rw [htexts, List.mem_eraseDups]
    exact List.mem_cons_of_mem _ h
  refine ⟨?_, fun name text more h => NameTable.text?_enter h more, ?_,
    fun text name => NameTable.find?_eq_some_iff hdistinct,
    NameTable.text?_enter (t := .empty) (by rfl) texts, ?_, htexts⟩
  · refine (NameTable.enter_numbers .empty texts).imp fun text name h => ⟨?_, h⟩
    exact NameTable.intern_of_find? ((NameTable.find?_eq_some_iff hdistinct).2 h)
  · intro text htext other hother
    obtain ⟨name, hname⟩ := NameTable.exists_find? (hmem text htext)
    obtain ⟨number, hnumber⟩ := NameTable.exists_find? (hmem other hother)
    rw [NameTable.intern_of_find? hname, NameTable.intern_of_find? hnumber]
    refine ⟨?_, ?_⟩
    · rintro rfl
      exact Option.some.inj
        ((NameTable.find?_eq_some hname).symm.trans (NameTable.find?_eq_some hnumber))
    · rintro rfl
      exact Option.some.inj (hname.symm.trans hnumber)
  · have hset : t.texts.toList.toFinset = insert "" (texts.toFinset.erase "") := by
      ext text
      by_cases hempty : text = "" <;> simp [htexts, hempty]
    rw [hdistinct.size_eq, hset, Finset.card_insert_of_notMem (Finset.notMem_erase _ _)]

example : (NameTable.empty.enter ["b", "", "a", "b"]).1.map NameId.index = [1, 0, 2, 1] := by
  decide +kernel

end Scriptorium
