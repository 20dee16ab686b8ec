import ApiImpact.Proofs.Assigned.Written
import ApiImpact.Proofs.Program.Scripted
import ApiImpact.Proofs.Script.Completes

/-!
# What an assigned object exports

The list between the braces is cut into its properties, and each is taken in under what is read as its key. Nothing else in
the script is found, unless something is exported inside the object.
-/

namespace ApiImpact.Assigned

open Text Text.Pattern Lexical Script Script.Source

variable {s : Source} {front rest text : List Char} {start : Nat} {c : Char} {surface : Collection}

/-! ## Keys -/

theorem Name.leadingIdentifier?_append (name : Name) (hrest : ∀ c ∈ rest.head?, isIdentifierChar c = false) :
    leadingIdentifier? (name.chars ++ rest) = some name.chars := by
  obtain ⟨chars, ne_nil, isPart, not_digit⟩ := name
  obtain ⟨c, more, rfl⟩ := List.exists_cons_of_ne_nil ne_nil
  obtain ⟨hc, hmore⟩ := List.forall_mem_cons.mp isPart
  have hdigit : c.isDigit = false := not_digit c rfl
  rw [List.cons_append, leadingIdentifier?, hc, hdigit, takeWhile_append hmore hrest]
  rfl

theorem propertyKey?_of_identifier {property key : List Char} (hquote : property.head?.any ModuleReference.isQuote = false)
    (h : s.identifierAt? start = .ok (some key)) : s.propertyKey? start property = .ok (some (.ofList key)) := by
  unfold propertyKey?
  rw [hquote, if_neg Bool.false_ne_true]
  exact bind_eq_ok_iff.mpr ⟨some key, h, rfl⟩

theorem propertyKey?_of_none {property : List Char} (hquote : property.head?.any ModuleReference.isQuote = false)
    (h : s.identifierAt? start = .ok none) (hasync : "async".toList.isPrefixOf property = false) :
    s.propertyKey? start property = .ok none := by
  unfold propertyKey?
  rw [hquote, if_neg Bool.false_ne_true]
  refine bind_eq_ok_iff.mpr ⟨none, h, ?_⟩
  dsimp only
  rw [hasync]
  rfl

theorem propertyKey?_of_quote {property : List Char} (hquote : property.head?.any ModuleReference.isQuote = true) :
    s.propertyKey? start property = .ok (s.literalAt? start) := by
  unfold propertyKey?
  rw [hquote, if_pos rfl]
  rfl

theorem Quoted.chars_contents (literal : Quoted) : literal.contents.chars = literal.chars := by
  have hglyphs (chars : List Char) : (chars.map Glyph.plain).flatMap Glyph.chars = chars := by
    induction chars with
    | nil => rfl
    | cons c chars ih => rw [List.map_cons, List.flatMap_cons, ih]; rfl
  exact hglyphs literal.chars

/-- The script of items that may follow one another. -/
def scriptOf (items : List Item) : Source := Source.of (items.flatMap Item.chars)

theorem code_scriptOf {items : List Item} (h : isLexical [] items = true) : (scriptOf items).code = code items :=
  (congrArg (hide (· != .code)) (shadesFrom_items recalls_nil h)).trans (hide_items items)

/-- A literal between items is read as what stands in it. -/
theorem Quoted.literalAt?_scriptOf (literal : Quoted) {front back : List Item}
    (h : isLexical [] (front ++ (Key.quoted literal).item :: back) = true) :
    (scriptOf (front ++ (Key.quoted literal).item :: back)).literalAt? (byteLength (code front)) = some (.ofList literal.chars) := by
  have hsize : literal.mark.utf8Size = 1 := by rcases literal.isMark with h | h <;> rw [h] <;> rfl
  have hblanked : ∀ d ∈ literal.chars.flatMap blankOut, (d == literal.mark) = false := by
    intro d hd
    obtain ⟨c, -, hc⟩ := List.mem_flatMap.mp hd
    rcases mem_blankOut hc with rfl | rfl <;> rcases literal.isMark with h | h <;> rw [h] <;> rfl
  have hlength : byteLength literal.chars = byteLength (literal.chars.flatMap blankOut) := by
    have hhide : hide (· != .code) (literal.chars.map (·, .literal)) = literal.chars.flatMap blankOut := List.flatMap_map _ _ _
    rw [← hhide, byteLength_hide]
    simp [Function.comp_def]
  have hcode : (scriptOf (front ++ (Key.quoted literal).item :: back)).code =
      code front ++ (literal.mark :: (literal.chars.flatMap blankOut ++ literal.mark :: code back)) := by
    rw [code_scriptOf h, code_append, code_cons, Key.item, Item.masked, literal.chars_contents]
    simp
  have hshades : shades ((front ++ (Key.quoted literal).item :: back).flatMap Item.chars) = front.flatMap Item.shaded ++
      (literal.mark, .code) :: (literal.chars.map (·, .literal) ++ (literal.mark, .code) :: back.flatMap Item.shaded) := by
    rw [shades, shadesFrom_items recalls_nil h, List.flatMap_append, List.flatMap_cons, Key.item, Item.shaded, literal.chars_contents]
    simp
  have hslice := slice?_literal hshades (hide_items front) hlength
  have hstart : byteLength (code front) + 1 = byteLength (code front ++ [literal.mark]) := by simp [hsize]
  rw [Source.literalAt?, hcode, dropBytes?_byteLength]
  simp only [Option.bind_eq_bind, Option.bind_some, hsize, if_true]
  rw [findOffset?_append hblanked (by simp), Option.bind_some, hstart, ← byteLength_append]
  exact congrArg (Option.bind · _) hslice

theorem not_isQuote_of_isIdentifierChar (h : isIdentifierChar c = true) : ModuleReference.isQuote c = false := by
  have hquotes : ∀ c ∈ ['\'', '"'], isIdentifierChar c = false := by decide
  refine Bool.eq_false_iff.mpr fun hquote => ?_
  have hmem : c ∈ ['\'', '"'] := by simpa [ModuleReference.isQuote] using hquote
  rw [hquotes c hmem] at h
  cases h

theorem Name.not_quoted (name : Name) (rest : List Char) : (name.chars ++ rest).head?.any ModuleReference.isQuote = false := by
  obtain ⟨c, more, hcons⟩ := List.exists_cons_of_ne_nil name.ne_nil
  have hc := not_isQuote_of_isIdentifierChar (name.isPart c (hcons ▸ List.mem_cons_self))
  rw [hcons]
  exact hc

/-- A key that is a name is read where the property begins with it. -/
theorem Name.propertyKey?_eq (name : Name) {more : List Char} (hcode : s.code = front ++ (name.chars ++ (more ++ rest)))
    (hmore : ∀ c ∈ (more ++ rest).head?, isIdentifierChar c = false) :
    s.propertyKey? (byteLength front) (name.chars ++ more) = .ok (some (.ofList name.chars)) := by
  refine propertyKey?_of_identifier (name.not_quoted more) ?_
  rw [identifierAt?_byteLength hcode, name.leadingIdentifier?_append hmore]

/-- What is read as the key of a property is what it begins with. -/
theorem Property.propertyKey?_eq (property : Property) {front back : List Item} (hspread : ∀ value, property ≠ .spread value)
    (h : isLexical [] (front ++ (property.items ++ back)) = true) (hback : ∀ c ∈ (code back).head?, isIdentifierChar c = false) :
    (scriptOf (front ++ (property.items ++ back))).propertyKey? (byteLength (code front)) (code property.items) =
      .ok property.taken? := by
  have hcode : (scriptOf (front ++ (property.items ++ back))).code = code front ++ (code property.items ++ code back) := by
    rw [code_scriptOf h, code_append, code_append]
  cases property with
  | shorthand key =>
      rw [code_shorthand] at hcode ⊢
      have hread := @Name.propertyKey?_eq _ (code front) (code back) key [] hcode hback
      rwa [List.append_nil] at hread
  | pair key value =>
      rw [code_pair] at hcode ⊢
      cases key with
      | name word =>
          have hcode' : (scriptOf (front ++ ((pair (.name word) value).items ++ back))).code =
              code front ++ (word.chars ++ (':' :: code value.items ++ code back)) := by
            rw [hcode, List.append_assoc]
            rfl
          refine word.propertyKey?_eq hcode' ?_
          rintro _ ⟨⟩
          decide
      | quoted literal =>
          have hmark : ModuleReference.isQuote literal.mark = true := by rcases literal.isMark with h | h <;> rw [h] <;> rfl
          have hquote : ((Key.quoted literal).item.masked ++ ':' :: code value.items).head?.any ModuleReference.isQuote = true := hmark
          rw [propertyKey?_of_quote hquote]
          exact congrArg Except.ok (@Quoted.literalAt?_scriptOf literal front
            (.sign ':' (by decide) :: value.items ++ back) h)
  | method modifier key params gap body =>
      rw [code_method] at hcode ⊢
      cases modifier with
      | none =>
          have hcode' : (scriptOf (front ++ ((method .none key params gap body).items ++ back))).code =
              code front ++ (key.chars ++ (calledCode params gap body ++ code back)) := by
            rw [hcode, ← List.append_assoc key.chars]
            rfl
          refine key.propertyKey?_eq hcode' ?_
          rintro _ ⟨⟩
          decide
      | async =>
          have hcode' : (scriptOf (front ++ ((method .async key params gap body).items ++ back))).code =
              code front ++ (asyncName.chars ++ (' ' :: (key.chars ++ calledCode params gap body) ++ code back)) := hcode
          refine asyncName.propertyKey?_eq hcode' ?_
          rintro _ ⟨⟩
          decide
      | getter =>
          have hcode' : (scriptOf (front ++ ((method .getter key params gap body).items ++ back))).code =
              code front ++ (getName.chars ++ (' ' :: (key.chars ++ calledCode params gap body) ++ code back)) := hcode
          refine getName.propertyKey?_eq hcode' ?_
          rintro _ ⟨⟩
          decide
      | generator =>
          refine propertyKey?_of_none rfl ?_ rfl
          rw [identifierAt?_byteLength hcode]
          rfl
  | spread value => exact absurd rfl (hspread value)

/-! ## Properties -/

/-- The names are exported by assignment, and nothing else is exported. -/
structure Lists (surface : Collection) (names : List String) : Prop where
  names_eq : surface.snapshot.exports.map (·.name) = names
  assigned : ∀ e ∈ surface.snapshot.exports, e.exportType = .named ∧ e.style = .assignment ∧ e.sourceModule = none

variable {names : List String}

/-- A name is added if it is not there. -/
def addName (names : List String) (name : String) : List String := if names.contains name then names else names ++ [name]

theorem distinct_eq_foldl (names : List String) : distinct names = names.foldl addName [] := rfl

theorem Lists.of_exports {surface' : Collection} (h : Lists surface names) (he : surface'.snapshot.exports = surface.snapshot.exports) :
    Lists surface' names := ⟨he ▸ h.names_eq, he ▸ h.assigned⟩

theorem Lists.addExport (h : Lists surface names) (name : String) (line : Nat) (kind : ExportKind) :
    Lists (surface.addExport (.named name line kind .assignment)) (addName names name) := by
  have hany : surface.snapshot.exports.any (·.key == (Export.named name line kind .assignment).key) = names.contains name := by
    rw [← h.names_eq, Bool.eq_iff_iff, List.any_eq_true, List.contains_iff_mem, List.mem_map]
    refine exists_congr fun e => and_congr_right fun he => ?_
    obtain ⟨htype, -, hmodule⟩ := h.assigned e he
    simp [Export.key, Export.named, htype, hmodule]
  unfold Collection.addExport Snapshot.addExport
  rw [hany, addName]
  split_ifs
  · exact h
  · refine ⟨by simp [h.names_eq, Export.named], fun e he => ?_⟩
    rcases List.mem_append.mp he with he | he
    · exact h.assigned e he
    · obtain rfl := List.mem_singleton.mp he
      exact ⟨rfl, rfl, rfl⟩

theorem exports_publish (symbol : Symbol) : (surface.publish symbol).snapshot.exports = surface.snapshot.exports := by
  unfold Collection.publish Snapshot.publish Snapshot.addSymbol
  dsimp only
  split_ifs <;> rfl

theorem exports_refer (name : String) : (surface.refer name).1.snapshot.exports = surface.snapshot.exports := by
  unfold Collection.refer
  split
  · exact exports_publish _
  · rfl

/-- A value is published or referred to, and not exported. -/
theorem exports_addAssignedValue (value : Nat) (name : String) (anchor : Nat) :
    Gives (fun result => result.1.snapshot.exports = surface.snapshot.exports) (s.addAssignedValue surface value name anchor) := by
  unfold addAssignedValue
  refine gives_bind fun shape _ => ?_
  cases shape with
  | function =>
      refine gives_bind fun found _ => ?_
      cases found with
      | none => exact gives_pure rfl
      | some found =>
          refine gives_bind fun isNamed _ => ?_
          extract_lets next
          have hnext (ownName : Option (List Char)) :
              Gives (fun result => result.1.snapshot.exports = surface.snapshot.exports) (next ownName) :=
            gives_pure (exports_publish _)
          split_ifs
          · exact gives_bind fun offset _ => gives_bind fun ownName _ => hnext ownName
          · exact gives_bind fun ownName _ => hnext ownName
  | classType =>
      exact gives_bind fun offset _ => gives_bind fun ownName _ => gives_bind fun found _ => gives_pure (exports_publish _)
  | object => exact gives_pure rfl
  | other =>
      refine gives_bind fun referred _ => ?_
      cases referred with
      | none => exact gives_pure rfl
      | some referred =>
          refine gives_bind fun ends _ => ?_
          split_ifs
          · exact gives_pure (exports_refer _)
          · exact gives_pure rfl

/-- A property is exported under what is read as its key. -/
theorem gives_addProperty {property : List Char} {key : Option String} (h : Lists surface names)
    (hspread : "...".toList.isPrefixOf property = false) (hkey : s.propertyKey? start property = .ok key) :
    Gives (Lists · (key.elim names (addName names))) (s.addProperty surface start property) := by
  unfold addProperty
  rw [hspread, if_neg Bool.false_ne_true]
  refine gives_bind fun key' hkey' => ?_
  obtain rfl : key = key' := Except.ok.inj (hkey.symm.trans hkey')
  split
  · exact gives_pure h
  · rename_i key
    extract_lets beforeColon next
    have hnext {surface : Collection} {kind : ExportKind} (h : Lists surface names) :
        Gives (Lists · (addName names key)) (pure (surface, kind) >>= next) := gives_pure (h.addExport key _ kind)
    split_ifs
    · refine gives_bind fun value _ => (exports_addAssignedValue value key start).bind fun result hresult => ?_
      exact hnext (h.of_exports hresult)
    · refine gives_bind fun found _ => ?_
      cases found with
      | none => exact hnext h
      | some found => exact hnext (h.of_exports (exports_publish _))
    · exact hnext (h.of_exports (exports_refer _))

theorem gives_addProperty_spread {property : List Char} (h : Lists surface names) (hspread : "...".toList.isPrefixOf property = true) :
    Gives (Lists · names) (s.addProperty surface start property) := by
  unfold addProperty
  rw [hspread, if_pos rfl]
  exact gives_pure h

theorem not_dots_of_ne (h : c ≠ '.') (rest : List Char) : "...".toList.isPrefixOf (c :: rest) = false := by
  refine Bool.eq_false_iff.mpr fun hlead => h ?_
  exact (List.cons_prefix_cons.mp (List.isPrefixOf_iff_prefix.mp hlead)).1.symm

theorem Name.not_dots (name : Name) (rest : List Char) : "...".toList.isPrefixOf (name.chars ++ rest) = false := by
  obtain ⟨c, more, hcons⟩ := List.exists_cons_of_ne_nil name.ne_nil
  rw [hcons, List.cons_append]
  exact not_dots_of_ne (name.ne_of_mem (by decide) (hcons ▸ List.mem_cons_self)) _

/-- Only what is spread begins with dots. -/
theorem Property.not_dots (property : Property) (hspread : ∀ value, property ≠ .spread value) :
    "...".toList.isPrefixOf (code property.items) = false := by
  cases property with
  | shorthand key =>
      rw [code_shorthand, ← List.append_nil key.chars]
      exact key.not_dots []
  | pair key value =>
      rw [code_pair]
      cases key with
      | name word => exact word.not_dots _
      | quoted literal =>
          refine not_dots_of_ne ?_ _
          rcases literal.isMark with h | h <;> rw [h] <;> decide
  | method modifier key params gap body =>
      rw [code_method]
      cases modifier with
      | none => exact key.not_dots _
      | async | generator | getter => rfl
  | spread value => exact absurd rfl (hspread value)

/-- An entry is exported under what is taken for its key. -/
theorem Entry.gives_addProperty (entry : Entry) {front back : List Item} (h : isLexical [] (front ++ (entry.items ++ back)) = true)
    (hback : ∀ c ∈ (code back).head?, isIdentifierChar c = false) (hlists : Lists surface names) :
    Gives (Lists · (entry.property.taken?.elim names (addName names))) ((scriptOf (front ++ (entry.items ++ back))).addProperty surface
      (byteLength (code front) + byteLength ((code entry.items).takeWhile isBlank)) (trim (code entry.items))) := by
  obtain ⟨c, rest, hcons, hc⟩ := entry.property.exists_cons
  have hpiece : code entry.items = code entry.before.items ++ (code entry.property.items ++ code entry.after.items) := by
    rw [Entry.items, code_append, code_append]
  have htake : (code entry.items).takeWhile isBlank = code entry.before.items := by
    rw [hpiece, hcons]
    exact takeWhile_append entry.before.isBlank (by simpa using hc)
  have htrim : trim (code entry.items) = code entry.property.items := by
    rw [hpiece]
    exact entry.property.trimmed.trim_append entry.before.isBlank entry.after.isBlank
  have hitems : front ++ (entry.items ++ back) =
      (front ++ entry.before.items) ++ (entry.property.items ++ (entry.after.items ++ back)) := by
    rw [Entry.items]
    simp only [List.append_assoc]
  have hbehind : ∀ c ∈ (code (entry.after.items ++ back)).head?, isIdentifierChar c = false := by
    rw [code_append]
    cases hafter : code entry.after.items with
    | nil => exact hback
    | cons d more =>
        rintro _ ⟨⟩
        exact isIdentifierChar_of_isBlank (entry.after.isBlank d (hafter ▸ List.mem_cons_self))
  rw [htake, htrim, ← byteLength_append, ← code_append]
  rw [hitems] at h ⊢
  by_cases hspread : ∃ value, entry.property = .spread value
  · obtain ⟨value, hvalue⟩ := hspread
    rw [hvalue]
    exact gives_addProperty_spread hlists rfl
  · have hspread (value : Value) : entry.property ≠ .spread value := fun heq => hspread ⟨value, heq⟩
    exact Assigned.gives_addProperty hlists (entry.property.not_dots hspread) (entry.property.propertyKey?_eq hspread h hbehind)

theorem listItems_singleton (entry : Entry) : listItems [entry] = entry.items := by simp [listItems]

theorem listItems_cons_cons (entry next : Entry) (entries : List Entry) :
    listItems (entry :: next :: entries) = entry.items ++ .sign ',' (by decide) :: listItems (next :: entries) := by
  rw [listItems, List.map_cons, List.map_cons, List.intercalate_cons_cons, listItems, List.map_cons]
  simp

theorem Entry.isAllBlank (entry : Entry) : isAllBlank (code entry.items) = false := by
  obtain ⟨c, rest, hcons, hc⟩ := entry.property.exists_cons
  rw [Entry.items, code_append, code_append, hcons]
  simp [Text.isAllBlank, hc]

/-- What an entry adds is what it adds to the names. -/
theorem foldl_filterMap_cons (entry : Entry) (entries : List Entry) :
    ((entry :: entries).filterMap (·.property.taken?)).foldl addName names =
      (entries.filterMap (·.property.taken?)).foldl addName (entry.property.taken?.elim names (addName names)) := by
  cases h : entry.property.taken? with
  | none => rw [List.filterMap_cons, h, Option.elim_none]
  | some name => rw [List.filterMap_cons, h, Option.elim_some, List.foldl_cons]

/-- The entries of a list are taken in one after the other. -/
theorem gives_entries {items : List Item} (hlexical : isLexical [] items = true) (opening : Nat) (entry : Entry) (entries : List Entry)
    {front back : List Item} (hitems : items = front ++ (listItems (entry :: entries) ++ back))
    (hback : ∀ c ∈ (code back).head?, isIdentifierChar c = false) (previous : Char) {here : Nat}
    (hhere : opening + 1 + here = byteLength (code front)) (hlists : Lists surface names) :
    Gives (Lists · (((entry :: entries).filterMap (·.property.taken?)).foldl addName names))
      (((piecesFrom ',' 0 previous here [] here (code (listItems (entry :: entries)))).filter fun (_, piece) => !isAllBlank piece).foldlM
        (fun surface (offset, piece) =>
          (scriptOf items).addProperty surface (opening + 1 + offset + byteLength (piece.takeWhile isBlank)) (trim piece)) surface) := by
  induction entries generalizing entry front previous here surface names with
  | nil =>
      rw [listItems_singleton] at hitems ⊢
      subst hitems
      have hgives := entry.gives_addProperty hlexical hback hlists
      rw [piecesFrom_last (entry.isPart.isUncut previous), List.reverse_nil, List.nil_append,
        List.filter_cons_of_pos (by simp [entry.isAllBlank]), List.filter_nil, List.foldlM_cons, foldl_filterMap_cons]
      dsimp only
      rw [hhere]
      exact hgives.bind fun surface hsurface => gives_pure hsurface
  | cons next entries ih =>
      rw [listItems_cons_cons] at hitems ⊢
      have hcode : code (entry.items ++ .sign ',' (by decide) :: listItems (next :: entries)) =
          code entry.items ++ ',' :: code (listItems (next :: entries)) := by
        rw [code_append, code_cons]
        rfl
      have hfirst : items = front ++ (entry.items ++ (.sign ',' (by decide) :: (listItems (next :: entries) ++ back))) := by
        rw [hitems, List.append_assoc, List.cons_append]
      have hrest : items = (front ++ (entry.items ++ [.sign ',' (by decide)])) ++ (listItems (next :: entries) ++ back) := by
        rw [hfirst]
        simp
      have hplace : opening + 1 + (here + byteLength (code entry.items) + ','.utf8Size) =
          byteLength (code (front ++ (entry.items ++ [.sign ',' (by decide)]))) := by
        rw [code_append, code_append, byteLength_append, byteLength_append, ← hhere]
        simp only [Nat.add_assoc]
        rfl
      rw [hcode, piecesFrom_piece (entry.isPart.isUncut previous) (entry.isPart.depthBehind_eq previous), List.reverse_nil,
        List.nil_append, List.filter_cons_of_pos (by simp [entry.isAllBlank]), List.foldlM_cons, foldl_filterMap_cons]
      dsimp only
      rw [hhere]
      have hgives := entry.gives_addProperty (hfirst ▸ hlexical) (by rintro _ ⟨⟩; decide) hlists
      rw [← hfirst] at hgives
      exact hgives.bind fun surface hsurface => ih next hrest ',' hplace hsurface

theorem isBalanced_listItems (entries : List Entry) : IsBalanced (code (listItems entries)) := by
  induction entries with
  | nil => exact isBalanced_of_forall (List.forall_mem_nil _)
  | cons entry entries ih =>
      cases entries with
      | nil =>
          rw [listItems_singleton]
          exact entry.isPart.balanced
      | cons next entries =>
          rw [listItems_cons_cons, code_append, code_cons]
          exact entry.isPart.balanced.append ((isBalanced_of_forall (by decide)).append ih)

namespace Assignment

/-- What stands before the object. -/
def headChars : List Char := "module.exports = ".toList

/-- The code of the object, and what stands behind it. -/
def object (assignment : Assignment) : List Char :=
  '\x7b' :: (code (listItems assignment.entries) ++ '\x7d' :: ';' :: code assignment.ending.items)

/-- The script as it is read. -/
def source (assignment : Assignment) : Source := scriptOf assignment.items

variable (assignment : Assignment)

theorem code_source : assignment.source.code = headChars ++ assignment.object := by
  have hcode : assignment.source.code = code assignment.items := code_scriptOf assignment.lexical
  rw [hcode, items, code_append, code_append]
  rfl

/-- The properties of the object are taken in one after the other. -/
theorem gives_addProperties (hlists : Lists surface names) :
    Gives (Lists · ((assignment.properties.filterMap Property.taken?).foldl addName names))
      (assignment.source.addProperties surface (byteLength headChars)) := by
  have hcloses : Closes '\x7b' '\x7d' (code (listItems assignment.entries)) := isBalanced_listItems assignment.entries _ _ rfl
  have hclose := closeFrom_of_closes (by decide) hcloses (byteLength (headChars ++ ['\x7b'])) (';' :: code assignment.ending.items)
  have hlist := codeBetween_bracket assignment.code_source rfl
  unfold addProperties
  rw [assignment.code_source, object, matchingClose?_of_closeFrom rfl hclose]
  dsimp only
  rw [bind_eq_of_ok hlist, properties, List.filterMap_map]
  cases hentries : assignment.entries with
  | nil => exact gives_pure hlists
  | cons entry entries =>
      have hitems : assignment.items = headItems ++ (listItems (entry :: entries) ++ tailItems assignment.ending) := by
        rw [items, hentries]
      refine gives_entries assignment.lexical (byteLength headChars) entry entries hitems ?_ ' ' rfl hlists
      rintro _ ⟨⟩
      decide

end Assignment

end ApiImpact.Assigned
