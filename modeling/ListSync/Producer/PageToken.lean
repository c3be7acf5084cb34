import ListSync.Decimal
import ListSync.Index

/-!
# Page tokens

The text by which the pages of a token list are addressed: the number of the page, and the direction
from which it is reached. The anchor is the page on which a client starts. `parse?_text` says that
what is written reads back.
-/

namespace ListSync.Producer

/-- The address of a page. -/
inductive PageToken where
  | anchor (page : Nat)
  | forward (page : Nat)
  | backward (page : Nat)
deriving DecidableEq, Repr, Inhabited

namespace PageToken

/-- The number of the page. -/
def page : PageToken → Nat
  | anchor p | forward p | backward p => p

/-- The word before the number. -/
def word : PageToken → List Char
  | anchor _ => ['p', 'a', 'g', 'e']
  | forward _ => ['f', 'o', 'r', 'w', 'a', 'r', 'd']
  | backward _ => ['b', 'a', 'c', 'k', 'w', 'a', 'r', 'd']

/-- The characters of a token. -/
def render (t : PageToken) : List Char := t.word ++ '-' :: Decimal.render t.page

/-- The text of a token. -/
def text (t : PageToken) : String := String.ofList t.render

/-- The kind of token a word stands for. -/
def ofWord? (word : List Char) : Option (Nat → PageToken) :=
  if word = ['p', 'a', 'g', 'e'] then some anchor
  else if word = ['f', 'o', 'r', 'w', 'a', 'r', 'd'] then some forward
  else if word = ['b', 'a', 'c', 'k', 'w', 'a', 'r', 'd'] then some backward
  else none

/-- Read a token: a word, a dash and a count. The first dash ends the word. -/
def read? (cs : List Char) : Option PageToken :=
  match cs.dropWhile (· ≠ '-') with
  | '-' :: number => do
    let page ← Decimal.count? maxCount number
    let make ← ofWord? (cs.takeWhile (· ≠ '-'))
    return make page
  | _ => none

/-- Read a token from text. -/
def parse? (text : String) : Option PageToken := read? text.toList

/-! ## Reading back -/

/-- A word stands for the tokens that are written with it. -/
theorem of_ofWord? {word : List Char} {make : Nat → PageToken} (named : ofWord? word = some make)
    (page : Nat) : (make page).word = word ∧ (make page).page = page := by
  unfold ofWord? at named
  repeat' split at named
  all_goals cases named
  all_goals exact ⟨Eq.symm ‹_›, rfl⟩

theorem ofWord?_word (t : PageToken) : (ofWord? t.word).map (· t.page) = some t := by
  cases t <;> rfl

/-- A token is read from its word, a dash and a text of its page. No word has a dash in it, so that
the first dash is this one. -/
theorem read?_eq_some_iff {cs : List Char} {t : PageToken} :
    read? cs = some t
      ↔ ∃ number, cs = t.word ++ '-' :: number ∧ Decimal.count? maxCount number = some t.page := by
  constructor
  · intro read
    unfold read? at read
    split at read
    · rename_i number rest
      simp only [Option.bind_eq_bind, Option.bind_eq_some_iff, Option.pure_def,
        Option.some.injEq] at read
      obtain ⟨page, counted, make, named, rfl⟩ := read
      obtain ⟨word, same⟩ := of_ofWord? named page
      refine ⟨number, ?_, counted.trans (congrArg some same.symm)⟩
      rw [word, ← rest, List.takeWhile_append_dropWhile]
    · cases read
  · rintro ⟨number, rfl, counted⟩
    -- no word has a dash in it, so the first dash is the one behind the word
    have word : ∀ c ∈ t.word, c ≠ '-' := by cases t <;> simp [PageToken.word]
    have front : (t.word ++ '-' :: number).takeWhile (· ≠ '-') = t.word := by
      rw [List.takeWhile_append_of_pos (by simpa using word)]
      simp
    have back : (t.word ++ '-' :: number).dropWhile (· ≠ '-') = '-' :: number := by
      rw [List.dropWhile_append_of_pos (by simpa using word)]
      simp
    unfold read?
    rw [back, front]
    simp only [counted, Option.bind_eq_bind, Option.bind_some, Option.pure_def]
    exact (Option.map_eq_bind ..).symm.trans (ofWord?_word t)

/-- The text of a token is read as the token, if its page is a count. -/
theorem parse?_text {t : PageToken} (fits : t.page ≤ maxCount) : parse? t.text = some t := by
  rw [parse?, text, String.toList_ofList]
  exact read?_eq_some_iff.2 ⟨_, rfl, Decimal.count?_render fits⟩

end PageToken

end ListSync.Producer
