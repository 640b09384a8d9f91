/-!
# Cutting a text at separators

`pieces sep` cuts a list of characters at every character that `sep` holds of and drops
the separators. There is always one piece more than there are separators.
-/

namespace ChannelDirectory.Text

/-- The parts of a text between the characters that `sep` holds of. -/
def pieces (sep : Char → Bool) : List Char → List (List Char)
  | [] => [[]]
  | c :: cs =>
    if sep c then [] :: pieces sep cs
    else match pieces sep cs with
      | [] => [[c]]
      | piece :: rest => (c :: piece) :: rest

/-- The parts before and after the first character that `sep` holds of, if there is one. -/
def cutAt (sep : Char → Bool) : List Char → Option (List Char × List Char)
  | [] => none
  | c :: cs =>
    if sep c then some ([], cs)
    else (cutAt sep cs).map fun (before, after) => (c :: before, after)

theorem pieces_ne_nil (sep : Char → Bool) (cs : List Char) : pieces sep cs ≠ [] := by
  cases cs with
  | nil => simp [pieces]
  | cons c cs =>
    unfold pieces
    split
    · simp
    · split <;> simp

/-- A text without separators is one piece. -/
theorem pieces_of_all_not {sep : Char → Bool} {cs : List Char} (h : ∀ c ∈ cs, sep c = false) :
    pieces sep cs = [cs] := by
  induction cs with
  | nil => rfl
  | cons c cs ih =>
    rw [pieces, ih fun d hd => h d (List.mem_cons_of_mem c hd), if_neg]
    simp [h c List.mem_cons_self]

/-- The first piece ends at the first separator. -/
theorem pieces_append_cons {sep : Char → Bool} {cs : List Char} {c : Char} (rest : List Char)
    (h : ∀ d ∈ cs, sep d = false) (hc : sep c = true) :
    pieces sep (cs ++ c :: rest) = cs :: pieces sep rest := by
  induction cs with
  | nil => simp [pieces, hc]
  | cons d cs ih =>
    have hd : sep d = false := h d List.mem_cons_self
    rw [List.cons_append, pieces, ih fun x hx => h x (List.mem_cons_of_mem d hx), if_neg]
    simp [hd]

/-- A cut is made at the first separator. -/
theorem cutAt_append_cons {sep : Char → Bool} {cs : List Char} {c : Char} (rest : List Char)
    (h : ∀ d ∈ cs, sep d = false) (hc : sep c = true) :
    cutAt sep (cs ++ c :: rest) = some (cs, rest) := by
  induction cs with
  | nil => simp [cutAt, hc]
  | cons d cs ih =>
    have hd : sep d = false := h d List.mem_cons_self
    rw [List.cons_append, cutAt, ih fun x hx => h x (List.mem_cons_of_mem d hx), if_neg]
    · rfl
    · simp [hd]

end ChannelDirectory.Text
