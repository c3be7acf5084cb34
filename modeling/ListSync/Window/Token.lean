import ListSync.Kind

/-!
# Windows of token lists

The tokens of the pages on both sides of what is loaded, and the tokens of the pages that are being
fetched. Those are a set: a token is in it once or not at all.
-/

namespace ListSync

/-- The loaded window of a token list. -/
structure TokenWindow where
  /-- The token of the page that was loaded first. -/
  anchor : String
  /-- The token of the page behind the loaded ones, if there is one. -/
  forward : Option String
  /-- The token of the page before the loaded ones, if there is one. -/
  backward : Option String
  /-- The tokens of the pages being fetched. -/
  inFlight : List String := []
deriving DecidableEq, Repr, Inhabited

namespace TokenWindow

/-- The token of the next page in a direction. -/
def adjacent (w : TokenWindow) : Direction → Option String
  | .forward => w.forward
  | .backward => w.backward

/-- Whether a page is being fetched. -/
def isInFlight (w : TokenWindow) (token : String) : Bool := w.inFlight.contains token

/-- The token of the next page in a direction, unless it is being fetched. -/
def needsFetch (w : TokenWindow) (d : Direction) : Option String :=
  (w.adjacent d).filter fun token => !w.isInFlight token

/-- Note that a page is being fetched. -/
def mark (w : TokenWindow) (token : String) : TokenWindow :=
  if w.isInFlight token then w else { w with inFlight := w.inFlight ++ [token] }

/-- Forget that a page is being fetched. -/
def clear (w : TokenWindow) (token : String) : TokenWindow :=
  { w with inFlight := w.inFlight.filter (· ≠ token) }

/-- Forget all pages being fetched. -/
def clearAll (w : TokenWindow) : TokenWindow := { w with inFlight := [] }

/-- Move the edge in a direction behind a page that has been loaded. -/
def advance (w : TokenWindow) (d : Direction) (next : Option String) : TokenWindow :=
  match d with
  | .forward => { w with forward := next }
  | .backward => { w with backward := next }

/-! ## What is in flight after a change -/

/-- What is in flight once a page is marked was so before, or is that page. -/
theorem mem_inFlight_mark (w : TokenWindow) (token other : String) :
    other ∈ (w.mark token).inFlight ↔ other ∈ w.inFlight ∨ other = token := by
  unfold mark
  split
  · rename_i h
    simp only [isInFlight, List.contains_iff_mem] at h
    exact ⟨Or.inl, fun e => e.elim id fun e => e ▸ h⟩
  · simp

/-- What is in flight once a page is cleared was so before, and is not that page. -/
theorem mem_inFlight_clear (w : TokenWindow) (token other : String) :
    other ∈ (w.clear token).inFlight ↔ other ∈ w.inFlight ∧ other ≠ token := by
  simp [clear]

/-- No token is in flight twice. -/
theorem nodup_inFlight_mark {w : TokenWindow} (token : String) (h : w.inFlight.Nodup) :
    (w.mark token).inFlight.Nodup := by
  unfold mark
  split
  · exact h
  · rename_i fresh
    simp only [isInFlight, List.contains_iff_mem] at fresh
    exact List.nodup_append.2 ⟨h, by simp, fun a ha b hb => by
      rw [List.mem_singleton] at hb
      exact fun e => fresh (hb ▸ e ▸ ha)⟩

/-! ## JSON -/

/-- The members of a window. What is in flight is not part of its JSON form. -/
def members (w : TokenWindow) : List (String × Json) :=
  [("pageToken", .str w.anchor), ("forwardPageToken", Json.ofString? w.forward),
    ("backwardPageToken", Json.ofString? w.backward)]

/-- A window as JSON. -/
def toJson (w : TokenWindow) : Json := .obj w.members

/-- The fields of a window. -/
def fields : List Field :=
  [.fixed "pageToken", .fixed "forwardPageToken", .fixed "backwardPageToken"]

/-- What the text of a window is read for. -/
def schema : Schema := .record fields

/-- A window from JSON. -/
def ofJson? (j : Json) : Option TokenWindow := do
  let r ← j.record? fields
  return {
    anchor := ← r.required "pageToken" Json.string?
    forward := ← r.optional "forwardPageToken" Json.string?
    backward := ← r.optional "backwardPageToken" Json.string? }

end TokenWindow

end ListSync
