import ListSync.Producer.FullList
import ListSync.Proofs.Decimal

/-!
# Which texts are page tokens

A page is named by a word for how a client comes to it, a dash and a text of its number
(`PageToken.Names`), so that a page has many names, with a plus sign and zeros or without.
`readToken_exact` says that these are the texts that are read as page tokens, that the one which is
written is among them, and that two of them are read as one token exactly when they name the same
page in the same way.

There is no dash in a word. So the dash at which a text is split can only be the one behind its word
(`PageToken.read?_eq_some_iff`).
-/

namespace ListSync.Producer

/-- How a client comes to a page. -/
inductive Approach where
  /-- It starts on the page. -/
  | anchor
  | forward
  | backward
deriving DecidableEq, Repr

/-- The word for it. -/
def Approach.word : Approach → String
  | anchor => "page"
  | forward => "forward"
  | backward => "backward"

namespace PageToken

/-- How the page of a token is come to. -/
def approach : PageToken → Approach
  | anchor _ => .anchor
  | forward _ => .forward
  | backward _ => .backward

/-- A text names a page and how it is come to. The number is at most the greatest count. -/
def Names (text : String) (a : Approach) (page : Nat) : Prop :=
  page ≤ maxCount ∧ ∃ number,
    Decimal.Spells number page ∧ text = a.word ++ "-" ++ String.ofList number

/-- A token is its approach and its page. -/
theorem ext_iff {t u : PageToken} : t = u ↔ t.approach = u.approach ∧ t.page = u.page := by
  cases t <;> cases u <;> simp [approach, page]

/-- There are tokens for every approach and every page. -/
theorem exists_token (a : Approach) (page : Nat) :
    ∃ t : PageToken, t.approach = a ∧ t.page = page := by
  cases a
  · exact ⟨.anchor page, rfl, rfl⟩
  · exact ⟨.forward page, rfl, rfl⟩
  · exact ⟨.backward page, rfl, rfl⟩

theorem toList_word (t : PageToken) : t.approach.word.toList = t.word := by
  cases t <;> simp [approach, Approach.word, word]

/-- A text is read as a token exactly when it names its page and how this is come to. -/
theorem parse?_eq_some_iff {text : String} {t : PageToken} :
    parse? text = some t ↔ Names text t.approach t.page := by
  have written (number : List Char) : text.toList = t.word ++ '-' :: number
      ↔ text = t.approach.word ++ "-" ++ String.ofList number := by
    rw [← String.toList_inj]
    simp [toList_word]
  simp only [parse?, read?_eq_some_iff, Decimal.count?_eq_some_iff, written, Names]
  constructor
  · rintro ⟨number, split, spelled, fits⟩
    exact ⟨fits, number, spelled, split⟩
  · rintro ⟨fits, number, spelled, split⟩
    exact ⟨number, split, spelled, fits⟩

end PageToken

namespace FullList

open PageToken (Names)

/-- The text of a token is read as what it names. -/
theorem readToken_eq_ok_iff {text : String} {t : PageToken} :
    readToken text = .ok t ↔ Names text t.approach t.page := by
  rw [← PageToken.parse?_eq_some_iff, readToken]
  split
  · rename_i read
    rw [read, Except.ok.injEq, Option.some.injEq]
  · rename_i unread
    rw [unread]
    exact ⟨nofun, nofun⟩

/-- A text that names a page is read as the token of this page and approach. -/
theorem readToken_of_names {text : String} {a : Approach} {page : Nat} (names : Names text a page) :
    ∃ t, readToken text = .ok t ∧ t.approach = a ∧ t.page = page := by
  obtain ⟨t, rfl, rfl⟩ := PageToken.exists_token a page
  exact ⟨t, readToken_eq_ok_iff.2 names, rfl, rfl⟩

/-- All other texts are refused. -/
theorem readToken_of_not_names {text : String} (unnamed : ∀ a page, ¬Names text a page) :
    readToken text = .error (.invalidPageToken text) := by
  unfold readToken
  split
  · rename_i t read
    exact absurd (PageToken.parse?_eq_some_iff.1 read) (unnamed _ _)
  · rfl

/-- A token that fits the machine is read back as it was written. -/
theorem readToken_text {t : PageToken} (fits : t.page ≤ maxCount) : readToken t.text = .ok t := by
  rw [readToken, PageToken.parse?_text fits]

/-- Texts of page tokens are exact. What is written reads back. What is read are the names of pages,
each as the token of the page and approach that it names, and all other texts are refused. A token
that was read is read again from its own text, and two texts are read as one token exactly when they
name one page and one approach. -/
theorem readToken_exact :
    (∀ t : PageToken, t.page ≤ maxCount → readToken t.text = .ok t)
    ∧ (∀ text, (∃ t, readToken text = .ok t) ↔ ∃ a page, Names text a page)
    ∧ (∀ text a page, Names text a page →
      ∃ t, readToken text = .ok t ∧ t.approach = a ∧ t.page = page)
    ∧ (∀ text, (∀ a page, ¬Names text a page) → readToken text = .error (.invalidPageToken text))
    ∧ (∀ text t, readToken text = .ok t → readToken t.text = .ok t)
    ∧ ∀ text other a b page page', Names text a page → Names other b page' →
      (readToken text = readToken other ↔ a = b ∧ page = page') := by
  refine ⟨fun t => readToken_text, fun text => ⟨?_, ?_⟩, fun _ _ _ => readToken_of_names,
    fun _ => readToken_of_not_names, ?_, ?_⟩
  · rintro ⟨t, read⟩
    exact ⟨t.approach, t.page, readToken_eq_ok_iff.1 read⟩
  · rintro ⟨a, page, names⟩
    obtain ⟨t, read, -⟩ := readToken_of_names names
    exact ⟨t, read⟩
  · intro text t read
    exact readToken_text (readToken_eq_ok_iff.1 read).1
  · intro text other a b page page' names names'
    obtain ⟨t, read, rfl, rfl⟩ := readToken_of_names names
    obtain ⟨u, read', rfl, rfl⟩ := readToken_of_names names'
    rw [read, read', Except.ok.injEq, PageToken.ext_iff]

/-- The last page that a token can name reads back, and so does one that is named with a plus sign
and a zero, as the token of its plain name. -/
theorem readToken_exact_plusZero :
    readToken (PageToken.backward maxCount).text = .ok (.backward maxCount)
    ∧ Names "forward-+07" .forward 7 ∧ Names "forward-7" .forward 7
    ∧ readToken "forward-+07" = readToken "forward-7" := by
  obtain ⟨written, -, -, -, -, same⟩ := readToken_exact
  have zeroSeven : Decimal.Numeral ['0', '7'] 7 := (Decimal.Numeral.digit 0).concat 7
  have spelled : Names "forward-+07" .forward 7 :=
    ⟨by decide, ['+', '0', '7'], .plus zeroSeven, by decide⟩
  have plain : Names "forward-7" .forward 7 := ⟨by decide, ['7'], .bare (.digit 7), by decide⟩
  exact ⟨written (.backward maxCount) (Nat.le_refl _), spelled, plain,
    (same _ _ _ _ _ _ spelled plain).2 ⟨rfl, rfl⟩⟩

/-- One page beyond the last, and a dash too many. -/
example :
    readToken "page-18446744073709551616" = .error (.invalidPageToken "page-18446744073709551616")
    ∧ readToken "page--1" = .error (.invalidPageToken "page--1") := by
  decide

end FullList

end ListSync.Producer
