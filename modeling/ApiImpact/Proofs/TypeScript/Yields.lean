import Mathlib.Tactic.SplitIfs
import ApiImpact.Proofs.TypeScript.Reads
import ApiImpact.TypeScript.Parse

/-!
# What every tree that is read is like

A property of all results of a reader, wherever the reader begins. So it is told of an export statement, however
much of a text is passed over, that the stars in it stand before the module they are taken from.
-/

namespace ApiImpact.TypeScript

open Reading

/-- Whatever the reader reads has the property `P`. -/
def Yields {α : Type} (P : α → Prop) (reader : Reading α) : Prop :=
  ∀ cursor a after, reader cursor = .ok a after → P a

variable {α β : Type} {P Q : α → Prop} {R : β → Prop} {reader other : Reading α} {next : α → Reading β} {a : α}
  {S : Tree → Prop} {one : Reading Tree} {trees : Reading (List Tree)} {kind : Kind} {parts : Parts}

theorem yields_pure (h : P a) : Yields P (pure a : Reading α) := by
  rintro _ _ _ ⟨⟩
  exact h

theorem yields_failure : Yields P (failure : Reading α) := by
  rintro _ _ _ ⟨⟩

theorem Yields.mono (h : Yields P reader) (hPQ : ∀ a, P a → Q a) : Yields Q reader :=
  fun cursor a after heq => hPQ a (h cursor a after heq)

theorem Yields.bind (h : Yields P reader) (hnext : ∀ a, P a → Yields R (next a)) : Yields R (reader >>= next) := by
  intro cursor b after heq
  rw [run_bind] at heq
  split at heq
  · rename_i a middle hreader
    exact hnext a (h cursor a middle hreader) middle b after heq
  · cases heq

theorem yields_bind (hnext : ∀ a, Yields R (next a)) : Yields R (reader >>= next) :=
  Yields.bind (P := fun _ => True) (fun _ _ _ _ => trivial) fun a _ => hnext a

theorem Yields.orElse (h : Yields P reader) (hother : Yields P other) : Yields P (reader <|> other) := by
  intro cursor a after heq
  rw [run_orElse] at heq
  split at heq
  · rename_i a' after' hreader
    cases heq
    exact h cursor a after hreader
  · exact hother _ a after heq

theorem Yields.attempt (h : Yields P reader) : Yields (fun result => ∀ a ∈ result, P a) (attempt reader) := by
  refine Yields.orElse ?_ (yields_pure nofun)
  rw [map_eq_pure_bind]
  refine h.bind fun a ha => yields_pure ?_
  rintro _ ⟨⟩
  exact ha

theorem Yields.optionally (h : Yields S one) : Yields (fun ts => ∀ t ∈ ts, S t) (optionally one) :=
  h.attempt.bind fun _ hresult => yields_pure fun t ht => hresult t (Option.mem_toList.mp ht)

theorem Yields.optionalList {T : List Tree → Prop} (h : Yields T trees) :
    Yields (fun ts => ts = [] ∨ T ts) (optionalList trees) := by
  refine h.attempt.bind fun result hresult => yields_pure ?_
  cases result with
  | none => exact .inl rfl
  | some ts => exact .inr (hresult ts rfl)

theorem Yields.many (h : Yields (fun ts => ∀ t ∈ ts, S t) trees) : Yields (fun ts => ∀ t ∈ ts, S t) (many trees) := by
  have hupTo (limit : Nat) : Yields (fun ts => ∀ t ∈ ts, S t) (upTo limit trees) := by
    induction limit with
    | zero => exact yields_pure nofun
    | succ limit ih =>
        refine h.attempt.bind fun result hresult => ?_
        cases result with
        | none => exact yields_pure nofun
        | some ts =>
            refine ih.bind fun more hmore => yields_pure fun t ht => ?_
            exact (List.mem_append.mp ht).elim (hresult ts rfl t) (hmore t)
  exact yields_bind fun text => hupTo _

theorem yields_take (label : Label) (length : Nat) : Yields (fun t => t.label = label) (take label length) :=
  yields_bind fun _ => yields_bind fun _ => yields_bind fun _ => yields_pure rfl

theorem yields_sign (text : String) : Yields (fun t => t.label = .token text) (sign text) :=
  yields_bind fun _ => yields_bind fun _ => yields_take _ _

theorem yields_word (text : String) : Yields (fun t => t.label = .token text) (word text) :=
  yields_bind fun _ => yields_bind fun _ => yields_take _ _

theorem yields_node (kind : Kind) (trees : Reading (List Tree)) :
    Yields (fun t => t.label = .node kind) (node kind trees) :=
  yields_bind fun _ => yields_pure rfl

theorem Yields.node (h : Yields (fun ts => S (.branch kind ts)) trees) : Yields S (node kind trees) :=
  h.bind fun _ hts => yields_pure hts

theorem yields_statementEnd : Yields (fun ts => ∀ t ∈ ts, t.label = .token ";") statementEnd := by
  refine (yields_sign ";").attempt.bind fun result hresult => ?_
  cases result with
  | none => exact yields_bind fun _ => yields_bind fun _ => yields_bind fun _ => yields_pure nofun
  | some semicolon =>
      refine yields_pure fun t ht => ?_
      obtain rfl := List.mem_singleton.mp ht
      exact hresult _ rfl

namespace Grammar

/-! ## Export statements -/

/-- The tree is no star and no name for one. -/
def IsPlain (t : Tree) : Prop := t.label ≠ .token "*" ∧ t.label ≠ .node .namespaceExport

/-- The parts of an export statement declare something, have a value, name a module or have no star. -/
def IsSourced (ts : List Tree) : Prop :=
  (∃ t ∈ ts, t.role = some .declaration ∨ t.role = some .value ∨ t.role = some .source ∨ t.label = .token "=") ∨
    ∀ t ∈ ts, IsPlain t

/-- If the tree is an export statement, then it is made of such parts. -/
def IsSourcedExport (t : Tree) : Prop :=
  t.label = .node .exportStatement → IsSourced t.children

theorem IsSourced.append_left {ts more : List Tree} (h : IsSourced ts) (hmore : ∀ t ∈ more, IsPlain t) :
    IsSourced (more ++ ts) := by
  rcases h with ⟨t, ht, hrole⟩ | hplain
  · exact .inl ⟨t, List.mem_append_right _ ht, hrole⟩
  · exact .inr fun t ht => (List.mem_append.mp ht).elim (hmore t) (hplain t)

theorem IsSourced.append_right {ts more : List Tree} (h : IsSourced ts) (hmore : ∀ t ∈ more, IsPlain t) :
    IsSourced (ts ++ more) := by
  rcases h with ⟨t, ht, hrole⟩ | hplain
  · exact .inl ⟨t, List.mem_append_left _ ht, hrole⟩
  · exact .inr fun t ht => (List.mem_append.mp ht).elim (hplain t) (hmore t)

theorem isPlain_of_token {t : Tree} {text : String} (h : t.label = .token text) (hne : text ≠ "*") : IsPlain t := by
  rw [IsPlain, h]
  exact ⟨fun he => hne (Label.token.inj he), nofun⟩

theorem isPlain_of_node {t : Tree} (h : t.label = .node kind) (hne : kind ≠ .namespaceExport) : IsPlain t := by
  rw [IsPlain, h]
  exact ⟨nofun, fun he => hne (Label.node.inj he)⟩

theorem role_as (t : Tree) (role : Role) : (t.as role).role = some role := by
  cases t
  rfl

/-- What a clause with the word `from` yields. -/
def NamesSource (ts : List Tree) : Prop := ∃ t ∈ ts, t.role = some .source

theorem NamesSource.isSourced {ts : List Tree} (h : NamesSource ts) (more : List Tree) : IsSourced (more ++ ts) := by
  obtain ⟨t, ht, hrole⟩ := h
  exact .inl ⟨t, List.mem_append_right _ ht, .inr (.inr (.inl hrole))⟩

theorem yields_fromClause : Yields NamesSource fromClause :=
  yields_bind fun _ => yields_bind fun t => yields_pure ⟨t.as .source, by simp, role_as t _⟩

theorem yields_exportedNames : Yields IsSourced exportedNames := by
  refine Yields.orElse ?_ (Yields.orElse ?_ ?_)
  · exact yields_bind fun name => yields_fromClause.bind fun ts hts => yields_pure (hts.isSourced [name])
  · exact yields_bind fun star => yields_fromClause.bind fun ts hts => yields_pure (hts.isSourced [star])
  · refine (yields_word "type").optionally.bind fun types htypes => ?_
    refine (yields_node .exportClause _).bind fun clause hclause => ?_
    refine yields_fromClause.optionalList.bind fun ts hts => yields_pure ?_
    rcases hts with rfl | hts
    · refine .inr fun t ht => ?_
      rw [List.append_nil, List.mem_append, List.mem_singleton] at ht
      rcases ht with ht | rfl
      · exact isPlain_of_token (htypes t ht) (by decide)
      · exact isPlain_of_node hclause nofun
    · exact hts.isSourced _

theorem yields_wholeExport : Yields IsSourced (wholeExport parts) := by
  refine Yields.orElse ?_ ?_
  · exact (yields_sign "=").bind fun equals hequals => yields_bind fun value => yields_pure
      (.inl ⟨equals, List.mem_cons_self, .inr (.inr (.inr hequals))⟩)
  · have hname : Yields (fun t => t.label = .node .identifier) (nameAs .identifier) :=
      yields_bind fun _ => yields_bind fun _ => yields_bind fun _ => yields_take _ _
    refine (yields_word "as").bind fun first hfirst => (yields_word "namespace").bind fun second hsecond =>
      hname.bind fun name hname => yields_pure (.inr fun t ht => ?_)
    simp only [List.mem_cons, List.not_mem_nil, or_false] at ht
    rcases ht with rfl | rfl | rfl
    · exact isPlain_of_token hfirst (by decide)
    · exact isPlain_of_token hsecond (by decide)
    · exact isPlain_of_node hname nofun

theorem yields_defaultExport : Yields IsSourced (defaultExport parts) := by
  refine yields_bind fun head => Yields.orElse ?_ ?_
  · exact yields_bind fun t => yields_pure (.inl ⟨t.as .declaration, by simp, .inl (role_as t _)⟩)
  · exact yields_bind fun t => yields_bind fun ends => yields_pure
      (.inl ⟨t.as .value, by simp, .inr (.inl (role_as t _))⟩)

theorem yields_exportStatement : Yields IsSourcedExport (exportStatement parts) := by
  have hend : Yields (fun ts => ∀ t ∈ ts, IsPlain t) statementEnd :=
    yields_statementEnd.mono fun ts hts t ht => isPlain_of_token (hts t ht) (by decide)
  have hbody : Yields IsSourced (
      (do
        let attributes ← exportedNames
        let more ← optionally (importAttribute parts)
        return attributes ++ more ++ (← statementEnd))
      <|> (do return (← wholeExport parts) ++ (← statementEnd))
      <|> defaultExport parts
      <|> (return [(← declaration parts).as .declaration])) := by
    refine Yields.orElse ?_ (Yields.orElse ?_ (Yields.orElse yields_defaultExport ?_))
    · refine yields_exportedNames.bind fun names hnames => ?_
      refine (yields_node .importAttribute _).optionally.bind fun more hmore => hend.bind fun ends hends => yields_pure ?_
      exact (hnames.append_right fun t ht => isPlain_of_node (hmore t ht) nofun).append_right hends
    · exact yields_wholeExport.bind fun ts hts => hend.bind fun ends hends => yields_pure (hts.append_right hends)
    · exact yields_bind fun t => yields_pure (.inl ⟨t.as .declaration, by simp, .inl (role_as t _)⟩)
  have hdecorator : Yields (fun ts => ∀ t ∈ ts, IsPlain t) (do return [← decorator parts]) := by
    refine (yields_node .decorator _).bind fun t ht => yields_pure fun t' ht' => ?_
    obtain rfl := List.mem_singleton.mp ht'
    exact isPlain_of_node ht nofun
  refine Yields.node (hdecorator.many.bind fun decorators hdecorators => ?_)
  refine (yields_word "export").bind fun head hhead => hbody.bind fun body hbody => yields_pure fun _ => ?_
  refine hbody.append_left fun t ht => ?_
  rcases List.mem_append.mp ht with ht | ht
  · exact hdecorators t ht
  · obtain rfl := List.mem_singleton.mp ht
    exact isPlain_of_token hhead (by decide)

/-! ## Statements -/

theorem isSourcedExport_of_node {t : Tree} (h : t.label = .node kind) (hne : kind ≠ .exportStatement) : IsSourcedExport t := by
  intro hexport
  exact absurd (Label.node.inj (h.symm.trans hexport)) hne

theorem yields_otherNode (kind : Kind) (trees : Reading (List Tree)) (hne : kind ≠ .exportStatement) :
    Yields IsSourcedExport (node kind trees) :=
  (yields_node kind trees).mono fun _ ht => isSourcedExport_of_node ht hne

theorem yields_declaration : Yields IsSourcedExport (declaration parts) := by
  have hclass : Yields IsSourcedExport (classDeclaration parts) := by
    refine yields_bind fun _ => yields_bind fun abstract => yields_bind fun _ => yields_bind fun _ =>
      yields_bind fun _ => yields_pure ?_
    cases abstract.isEmpty <;> exact isSourcedExport_of_node rfl nofun
  have hfunction : Yields IsSourcedExport (functionDeclaration parts) := by
    refine yields_bind fun head => yields_bind fun _ => yields_bind fun _ => yields_bind fun body => ?_
    cases body with
    | none => exact yields_bind fun _ => yields_pure (isSourcedExport_of_node rfl nofun)
    | some body =>
        refine yields_pure ?_
        cases head.any (·.label == .token "*") <;> exact isSourcedExport_of_node rfl nofun
  have hvariable : Yields IsSourcedExport (variableStatement parts) := by
    have hlist : Yields (fun t => t.kind? = some .variableDeclaration ∨ t.kind? = some .lexicalDeclaration)
        (variableList parts true) := by
      refine yields_bind fun keyword => yields_bind fun declared => yields_pure ?_
      cases keyword.label == .token "var"
      · exact .inr rfl
      · exact .inl rfl
    refine hlist.bind fun t ht => yields_bind fun ends => yields_pure ?_
    rcases ht with ht | ht <;> exact isSourcedExport_of_node rfl (by rw [ht]; decide)
  have hnamespace : Yields IsSourcedExport (namespaceDeclaration parts) := by
    refine yields_bind fun head => yields_bind fun _ => yields_bind fun _ => yields_bind fun _ => yields_bind fun _ =>
      yields_bind fun _ => yields_pure ?_
    cases head.label == .token "module" <;> exact isSourcedExport_of_node rfl nofun
  have hplain : Yields IsSourcedExport (plainDeclaration parts) := by
    refine yields_bind fun word => ?_
    split
    · exact hfunction
    · exact hfunction
    · exact hclass
    · exact hclass
    · exact yields_otherNode .interfaceDeclaration _ nofun
    · exact yields_otherNode .typeAliasDeclaration _ nofun
    · exact yields_otherNode .enumDeclaration _ nofun
    · exact Yields.orElse (yields_otherNode .enumDeclaration _ nofun) hvariable
    · exact hvariable
    · exact hvariable
    · exact hnamespace
    · exact hnamespace
    · exact yields_otherNode .importAlias _ nofun
    · exact yields_bind fun _ => yields_bind fun _ => hclass
  refine yields_bind fun word => ?_
  split_ifs
  · exact yields_otherNode .ambientDeclaration _ nofun
  · exact hplain

theorem yields_plainStatement : Yields IsSourcedExport (plainStatement parts) :=
  yields_declaration.orElse ((yields_otherNode .labeledStatement _ nofun).orElse
    (yields_otherNode .expressionStatement _ nofun))

theorem yields_statement (hblock : Yields IsSourcedExport (parts .block)) :
    Yields IsSourcedExport (statement parts) := by
  refine yields_bind fun word => ?_
  split
  · refine yields_bind fun text => ?_
    split
    · exact yields_otherNode .emptyStatement _ nofun
    · exact hblock
    · exact yields_exportStatement.orElse yields_plainStatement
    · exact yields_otherNode .expressionStatement _ nofun
  · exact (yields_otherNode .importStatement _ nofun).orElse yields_plainStatement
  · exact yields_exportStatement
  · exact yields_otherNode .ifStatement _ nofun
  · refine yields_bind fun head => yields_bind fun wait => yields_bind fun each => ?_
    cases each with
    | none => exact yields_bind fun _ => yields_bind fun _ => yields_pure (isSourcedExport_of_node rfl nofun)
    | some each => exact yields_bind fun _ => yields_pure (isSourcedExport_of_node rfl nofun)
  · exact yields_otherNode .whileStatement _ nofun
  · exact yields_otherNode .doStatement _ nofun
  · exact yields_otherNode .tryStatement _ nofun
  · exact yields_otherNode .switchStatement _ nofun
  · exact yields_otherNode .returnStatement _ nofun
  · exact yields_otherNode .throwStatement _ nofun
  · exact yields_otherNode .breakStatement _ nofun
  · exact yields_otherNode .continueStatement _ nofun
  · exact yields_otherNode .debuggerStatement _ nofun
  · exact yields_otherNode .withStatement _ nofun
  · exact yields_plainStatement

theorem yields_program (depth : Nat) : Yields (fun ts => ∀ t ∈ ts, IsSourcedExport t) (program (Grammar.parts depth)) := by
  have hstatement : Yields IsSourcedExport (Grammar.parts depth .statement) := by
    cases depth with
    | zero => exact yields_failure
    | succ depth =>
        refine yields_statement ?_
        cases depth with
        | zero => exact yields_failure
        | succ depth => exact yields_otherNode .block _ nofun
  have hhead : Yields IsSourcedExport hashBang :=
    yields_bind fun _ => yields_bind fun _ => (yields_take _ _).mono fun _ ht => isSourcedExport_of_node ht nofun
  have hone : Yields (fun ts => ∀ t ∈ ts, IsSourcedExport t) (do return [← Grammar.parts depth .statement]) := by
    refine hstatement.bind fun t ht => yields_pure fun t' ht' => ?_
    obtain rfl := List.mem_singleton.mp ht'
    exact ht
  refine hhead.optionally.bind fun head hhead => hone.many.bind fun ts hts => yields_pure fun t ht => ?_
  exact (List.mem_append.mp ht).elim (hhead t) (hts t)

end Grammar

/-- The export statements that are read are made of such parts, whatever is passed over. -/
theorem isSourcedExport_of_mem_parse {text : List Char} {elements : Bool} {statement : Tree}
    (h : statement ∈ (parse text elements).statements) : Grammar.IsSourcedExport statement := by
  have hfar (text : List Char) : ∀ t ∈ (parseAsFar text elements).statements, Grammar.IsSourcedExport t := by
    unfold parseAsFar
    split
    · rename_i statements rest hread
      exact Grammar.yields_program _ _ _ _ hread
    · exact nofun
  have haround (text : List Char) (limit : Nat) (ts : List Tree) (hts : parseAround text elements limit = some ts) :
      ∀ t ∈ ts, Grammar.IsSourcedExport t := by
    induction limit generalizing text with
    | zero => cases hts
    | succ limit ih =>
        rw [parseAround] at hts
        split_ifs at hts
        · cases hts
          exact hfar text
        · obtain ⟨without, -, hts⟩ := Option.bind_eq_some_iff.mp hts
          exact ih without hts
  rw [parse] at h
  split_ifs at h
  · exact hfar text statement h
  · cases htold : parseAround text elements toleratedTokens with
    | none =>
        rw [htold] at h
        exact hfar text statement h
    | some ts =>
        rw [htold] at h
        exact haround text _ ts htold statement h

end ApiImpact.TypeScript
