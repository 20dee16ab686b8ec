import Mathlib.Data.List.Basic
import ApiImpact.Text.Mask

/-!
# Shades, one character at a time

What one step of the scan does in each zone, and that the scan gives every character of a script one
shade. A mask is read off the shades character by character.

A comment leaves the scan where a blank would leave it. So a script whose comments are blanked out is
scanned through the same zones as the script itself, and has the same masks.
-/

namespace ApiImpact.Text

variable {zone : Zone} {trail : Trail} {quote c : Char} {inClass : Bool} {rest : List Char}

/-! ## Steps of the scan -/

theorem shadesFrom_code (h : c ≠ '/') :
    shadesFrom .code trail (c :: rest) =
      (c, .code) :: if c = '\'' ∨ c = '"' then shadesFrom (.quoted c) trail.leave rest
        else if c = '\x60' then shadesFrom .template trail.leave rest
        else shadesFrom .code (trail.push c) rest := by
  rw [shadesFrom.eq_def]
  simp only [h, if_false]
  split_ifs <;> rfl

/-- A slash that opens no comment. -/
theorem shadesFrom_slash (h : ∀ c ∈ rest.head?, c ≠ '/' ∧ c ≠ '*') :
    shadesFrom .code trail ('/' :: rest) =
      ('/', .code) :: if trail.regexMayStart then shadesFrom (.regex false) trail.leave rest
        else shadesFrom .code (trail.push '/') rest := by
  have hslash (rest' : List Char) : rest ≠ '/' :: rest' := by
    rintro rfl
    exact (h '/' rfl).1 rfl
  have hstar (rest' : List Char) : rest ≠ '*' :: rest' := by
    rintro rfl
    exact (h '*' rfl).2 rfl
  rw [shadesFrom.eq_4 _ _ _ hslash hstar, if_pos rfl]
  split_ifs <;> rfl

theorem shadesFrom_quoted (h : c ≠ '\\') :
    shadesFrom (.quoted quote) trail (c :: rest) =
      if c = quote then (c, .code) :: shadesFrom .code (.close c) rest
      else if c = '\n' then (c, .code) :: shadesFrom .code trail rest
      else (c, .literal) :: shadesFrom (.quoted quote) trail rest := by
  cases rest <;> simp [shadesFrom, h]

theorem shadesFrom_template (h : c ≠ '\\') :
    shadesFrom .template trail (c :: rest) =
      if c = '\x60' then (c, .code) :: shadesFrom .code (.close c) rest
      else (c, .literal) :: shadesFrom .template trail rest := by
  cases rest <;> simp [shadesFrom, h]

theorem shadesFrom_regex (h : c ≠ '\\') :
    shadesFrom (.regex inClass) trail (c :: rest) =
      if c = '\n' then (c, .code) :: shadesFrom .code trail rest
      else if c = '[' then (c, .literal) :: shadesFrom (.regex true) trail rest
      else if c = ']' ∧ inClass then (c, .literal) :: shadesFrom (.regex false) trail rest
      else if c = '/' ∧ !inClass then (c, .code) :: shadesFrom .code (.close c) rest
      else (c, .literal) :: shadesFrom (.regex inClass) trail rest := by
  cases rest <;> simp [shadesFrom, h]

/-- Text without the signs that open comments and literals is code. -/
theorem shadesFrom_signless {text : List Char} (h : ∀ c ∈ text, c ≠ '/' ∧ c ≠ '\'' ∧ c ≠ '"' ∧ c ≠ '\x60')
    (trail : Trail) (rest : List Char) :
    shadesFrom .code trail (text ++ rest) =
      text.map (·, .code) ++ shadesFrom .code (text.foldl Trail.push trail) rest := by
  induction text generalizing trail with
  | nil => rfl
  | cons c text ih =>
      obtain ⟨hslash, hsingle, hdouble, htemplate⟩ := h c List.mem_cons_self
      rw [List.cons_append, shadesFrom_code hslash, if_neg (not_or.mpr ⟨hsingle, hdouble⟩), if_neg htemplate,
        ih fun d hd => h d (List.mem_cons_of_mem _ hd)]
      rfl

/-- Every character gets one shade, whether one or two are read at a time. -/
theorem map_fst_shadesFrom (zone : Zone) (trail : Trail) (script : List Char) :
    (shadesFrom zone trail script).map Prod.fst = script := by
  fun_induction shadesFrom zone trail script <;> simp_all

theorem map_fst_of_shadesFrom {zone' : Zone} {trail' : Trail} {front : List Char} {shaded : List (Char × Shade)}
    (h : shadesFrom zone trail (front ++ rest) = shaded ++ shadesFrom zone' trail' rest) : shaded.map Prod.fst = front := by
  have hfst := congrArg (List.map Prod.fst) h
  rw [map_fst_shadesFrom, List.map_append, map_fst_shadesFrom] at hfst
  exact (List.append_cancel_right hfst).symm

theorem map_fst_shades (script : List Char) : (shades script).map Prod.fst = script :=
  map_fst_shadesFrom _ _ script

/-! ## Masks -/

variable {hidden : Shade → Bool} {shade : Shade} {shaded : List (Char × Shade)}

@[simp] theorem hide_nil : hide hidden [] = [] := rfl

@[simp] theorem hide_cons : hide hidden ((c, shade) :: shaded) =
    (if hidden shade then blankOut c else [c]) ++ hide hidden shaded := rfl

theorem hide_append (front back : List (Char × Shade)) :
    hide hidden (front ++ back) = hide hidden front ++ hide hidden back :=
  List.flatMap_append

theorem hide_flatMap {α : Type} (hidden : Shade → Bool) (items : List α) (shaded : α → List (Char × Shade)) :
    hide hidden (items.flatMap shaded) = items.flatMap fun item => hide hidden (shaded item) :=
  List.flatMap_assoc

/-- What a mask does not hide it leaves as it is. -/
theorem hide_map (h : hidden shade = false) (text : List Char) : hide hidden (text.map (·, shade)) = text := by
  induction text with
  | nil => rfl
  | cons c text ih => simp [h, ih]

/-- What a mask hides it blanks out. -/
theorem hide_map_hidden (h : hidden shade = true) (text : List Char) :
    hide hidden (text.map (·, shade)) = text.flatMap blankOut := by
  induction text with
  | nil => rfl
  | cons c text ih => simp [h, ih]

theorem mem_hide_of_code {entry : Char × Shade} (h : entry ∈ shaded) (hcode : entry.2 = .code) :
    entry.1 ∈ hide (· != .code) shaded := by
  obtain ⟨c, shade⟩ := entry
  subst hcode
  exact List.mem_flatMap.mpr ⟨_, h, List.mem_singleton_self c⟩

theorem mem_blankOut {d : Char} (h : d ∈ blankOut c) : d = '\n' ∨ d = ' ' := by
  unfold blankOut at h
  split_ifs at h
  · exact .inl (List.mem_singleton.mp h)
  · exact .inr (List.eq_of_mem_replicate h)

theorem blankOut_ne_nil (c : Char) : blankOut c ≠ [] := by
  unfold blankOut
  split_ifs
  · exact List.cons_ne_nil _ _
  · simpa using Nat.ne_of_gt c.utf8Size_pos

theorem byteLength_replicate_space (n : Nat) : byteLength (List.replicate n ' ') = n := by
  induction n with
  | zero => rfl
  | succ n ih =>
      rw [List.replicate_succ, byteLength_cons, ih, Nat.add_comm]
      rfl

theorem byteLength_blankOut (c : Char) : byteLength (blankOut c) = c.utf8Size := by
  unfold blankOut
  split_ifs with hc
  · rw [hc]
    rfl
  · exact byteLength_replicate_space _

theorem byteLength_hide (hidden : Shade → Bool) (shaded : List (Char × Shade)) :
    byteLength (hide hidden shaded) = byteLength (shaded.map Prod.fst) := by
  induction shaded with
  | nil => rfl
  | cons entry shaded ih =>
      obtain ⟨c, shade⟩ := entry
      rw [hide_cons, byteLength_append, ih, List.map_cons, byteLength_cons]
      split_ifs
      · rw [byteLength_blankOut]
      · rfl

/-! ## Without comments -/

/-- The shades when comments are blank code. -/
def uncomment (shaded : List (Char × Shade)) : List (Char × Shade) :=
  shaded.flatMap fun (c, shade) =>
    if shade = .comment then (blankOut c).map (·, .code) else [(c, shade)]

def Zone.isComment : Zone → Bool
  | lineComment | blockComment => true
  | _ => false

/-- The zone in which the scan stands when comments are blank code. -/
def Zone.outside (zone : Zone) : Zone :=
  if zone.isComment then code else zone

@[simp] theorem uncomment_nil : uncomment [] = [] := rfl

@[simp] theorem uncomment_cons {shade : Shade} (h : shade ≠ .comment) :
    uncomment ((c, shade) :: shaded) = (c, shade) :: uncomment shaded := by
  simp [uncomment, h]

theorem hide_comment : hide (· == .comment) ((c, .comment) :: shaded) =
    blankOut c ++ hide (· == .comment) shaded := rfl

theorem uncomment_comment : uncomment ((c, .comment) :: shaded) =
    (blankOut c).map (·, .code) ++ uncomment shaded := rfl

/-! ### Blanks -/

theorem Trail.push_blank (trail : Trail) (h : c = '\n' ∨ c = ' ') : trail.push c = trail.leave := by
  rcases h with rfl | rfl <;> rfl

theorem Trail.leave_leave (trail : Trail) : trail.leave.leave = trail.leave := rfl

theorem Trail.leave_eq_self (h : trail.inWord = false) : trail.leave = trail := by
  obtain ⟨last, word, inWord⟩ := trail
  cases h
  rfl

theorem shadesFrom_blank (h : c = '\n' ∨ c = ' ') :
    shadesFrom .code trail (c :: rest) = (c, .code) :: shadesFrom .code trail.leave rest := by
  have hslash : c ≠ '/' := by rcases h with rfl | rfl <;> decide
  have hquote : ¬(c = '\'' ∨ c = '"') := by rcases h with rfl | rfl <;> decide
  have htemplate : c ≠ '\x60' := by rcases h with rfl | rfl <;> decide
  rw [shadesFrom_code hslash, if_neg hquote, if_neg htemplate, Trail.push_blank trail h]

theorem shadesFrom_blanks {blanks : List Char} (hne : blanks ≠ []) (h : ∀ d ∈ blanks, d = '\n' ∨ d = ' ') :
    shadesFrom .code trail (blanks ++ rest) =
      blanks.map (·, .code) ++ shadesFrom .code trail.leave rest := by
  induction blanks generalizing trail with
  | nil => exact absurd rfl hne
  | cons d blanks ih =>
      rw [List.cons_append, shadesFrom_blank (h d List.mem_cons_self), List.map_cons, List.cons_append]
      cases blanks with
      | nil => rfl
      | cons e blanks =>
          rw [ih (List.cons_ne_nil e blanks) fun d hd => h d (List.mem_cons_of_mem _ hd), Trail.leave_leave]

theorem shadesFrom_blankOut (c : Char) :
    shadesFrom .code trail (blankOut c ++ rest) =
      (blankOut c).map (·, .code) ++ shadesFrom .code trail.leave rest :=
  shadesFrom_blanks (blankOut_ne_nil c) fun _ => mem_blankOut

/-! ### Scanning again -/

theorem head?_hide_comment (hz : zone.isComment = false) (h : ∀ rest', rest ≠ '/' :: rest') :
    (hide (· == .comment) (shadesFrom zone trail rest)).head? = rest.head? := by
  fun_cases shadesFrom zone trail rest <;> simp_all [Zone.isComment]

/-- Where no comment opens in the script, none opens in what is left of it. -/
theorem opens_no_comment (zone : Zone) (trail : Trail) (hz : zone.isComment = false)
    (hslash : ∀ rest', rest ≠ '/' :: rest') (hstar : ∀ rest', rest ≠ '*' :: rest') :
    ∀ c ∈ (hide (· == .comment) (shadesFrom zone trail rest)).head?, c ≠ '/' ∧ c ≠ '*' := by
  intro c hc
  rw [head?_hide_comment hz hslash] at hc
  obtain ⟨rest', rfl⟩ := List.head?_eq_some_iff.mp hc
  constructor
  · rintro rfl
    exact hslash rest' rfl
  · rintro rfl
    exact hstar rest' rfl

/-- Inside a comment the trail is that of a scan which has just read a blank. -/
theorem shadesFrom_hide_comment (zone : Zone) (trail : Trail) (script : List Char)
    (h : zone.isComment = true → trail.inWord = false) :
    shadesFrom zone.outside trail (hide (· == .comment) (shadesFrom zone trail script)) =
      uncomment (shadesFrom zone trail script) := by
  fun_induction shadesFrom zone trail script
  case case1 => simp [shadesFrom.eq_1]
  -- A comment opens.
  case case2 trail rest ih | case3 trail rest ih =>
    have ih := ih fun _ => rfl
    rw [hide_comment, hide_comment, uncomment_comment, uncomment_comment, ← ih]
    simp [Zone.outside, Zone.isComment, shadesFrom_blankOut, Trail.leave_leave]
  -- A slash that opens none; the scan looks at the next character too.
  case case4 trail rest hslash hstar hregex ih =>
    have hnext := opens_no_comment (.regex false) trail.leave rfl hslash hstar
    simp_all [Zone.outside, Zone.isComment, shadesFrom_slash hnext]
  case case5 trail rest hslash hstar hregex ih =>
    have hnext := opens_no_comment .code (trail.push '/') rfl hslash hstar
    simp_all [Zone.outside, Zone.isComment, shadesFrom_slash hnext]
  case case6 | case7 | case8 => simp_all [Zone.outside, Zone.isComment, shadesFrom_code]
  -- In a comment, up to its end.
  case case9 trail c rest ih =>
    rw [hide_comment, uncomment_comment, ← ih fun _ => h rfl]
    split_ifs <;> simp [Zone.outside, Zone.isComment, shadesFrom_blankOut, Trail.leave_eq_self (h rfl)]
  case case10 trail rest ih =>
    have hleave := Trail.leave_eq_self (h rfl)
    have ih := ih fun _ => h rfl
    rw [hide_comment, hide_comment, uncomment_comment, uncomment_comment, ← ih]
    simp [Zone.outside, Zone.isComment, shadesFrom_blankOut, hleave]
  case case11 trail rest hslash ih | case12 trail c rest hc ih =>
    rw [hide_comment, uncomment_comment, ← ih h]
    simp [Zone.outside, Zone.isComment, shadesFrom_blankOut, Trail.leave_eq_self (h rfl)]
  -- Literals are read as they were.
  case case13 | case18 | case22 => simp [Zone.outside, Zone.isComment, shadesFrom]
  case case14 | case19 | case23 => simp_all [Zone.outside, Zone.isComment, shadesFrom]
  case case15 | case16 | case17 => simp_all [Zone.outside, Zone.isComment, shadesFrom_quoted]
  case case20 | case21 => simp_all [Zone.outside, Zone.isComment, shadesFrom_template]
  case case24 | case25 | case26 | case27 => simp_all [Zone.outside, Zone.isComment, shadesFrom_regex]
  case case28 inClass trail c rest hescape hline hopen hclose hslash ih =>
    rw [hide_cons, uncomment_cons (by decide), ← ih fun h => absurd h Bool.false_ne_true]
    exact (shadesFrom_regex hescape).trans (by rw [if_neg hline, if_neg hopen, if_neg hclose, if_neg hslash]; rfl)

theorem shades_withoutComments (script : List Char) :
    shades (withoutComments script) = uncomment (shades script) :=
  shadesFrom_hide_comment .code {} script fun h => nomatch h

/-! ### Masks again -/

/-- A mask that hides comments and leaves code does not see whether comments are blank code. -/
theorem hide_uncomment (hidden : Shade → Bool) (hcode : hidden .code = false)
    (hcomment : hidden .comment = true) (shaded : List (Char × Shade)) :
    hide hidden (uncomment shaded) = hide hidden shaded := by
  induction shaded with
  | nil => rfl
  | cons entry shaded ih =>
      obtain ⟨c, shade⟩ := entry
      by_cases hshade : shade = .comment
      · rw [hshade, uncomment_comment, hide_append, hide_map hcode, ih, hide_cons, if_pos hcomment]
      · rw [uncomment_cons hshade, hide_cons, hide_cons, ih]

theorem withoutComments_withoutComments (script : List Char) :
    withoutComments (withoutComments script) = withoutComments script := by
  rw [withoutComments, shades_withoutComments, hide_uncomment _ rfl rfl]
  rfl

theorem codeOnly_withoutComments (script : List Char) :
    codeOnly (withoutComments script) = codeOnly script := by
  rw [codeOnly, shades_withoutComments, hide_uncomment _ rfl rfl]
  rfl

end ApiImpact.Text
