import Phrasebook.Proofs.TidyTrees
import Phrasebook.Script.Parse

/-!
# Phrasebook — the grammar keeps comments

Every rule of the grammar finds tidy trees: it is put together from tokens, goals and other rules, and the
nodes that it makes stand around trees that were found before. So a comment to the end of its line that
stands in the tree of a script holds no line feed.

The lemmas follow the modules of the grammar. Rules that are written with combinators are settled by the
lemmas about these; in the others every tree that is named on the way is shown to be tidy where it is found.

Main results:

* `Grammar.tidy_rules` — every rule finds tidy trees;
* `Script.tidy_parse` — the tree of every text is tidy.
-/

namespace Phrasebook.Script

open Script.Tree (AllTidy allTidy_nil)

namespace Grammar

open Rule

/-! ## Literals -/

theorem tidy_spread : spread.Tidy := .construct (.append tidy_mark (tidy_part rfl))

theorem tidy_elements {close : Char} {fresh : Bool} : (elements close fresh).Tidy := by
  have hcomma : Tidy (leafOf .token 1 ++ call (.elements close true)) :=
    .append (tidy_leafOf rfl) (tidy_call rfl)
  have hitem (rest : List Char) : Tidy ((if ellipsis.isPrefixOf rest then spread
      else part (.expression .inner)) ++ call (.elements close false)) :=
    Yields.append (.ite tidy_spread (tidy_part rfl)) (tidy_call rfl)
  -- an item may only start where one is expected
  cases fresh with
  | false =>
    refine reads_lookBehind.bind fun rest => ?_
    cases rest with
    | nil => exact yields_refuse
    | cons c rest => exact .ite (tidy_leafOf rfl) (.ite hcomma yields_refuse)
  | true =>
    refine reads_look.bind fun rest => ?_
    cases rest with
    | nil => exact yields_refuse
    | cons c rest => exact .ite (tidy_leafOf rfl) (.ite hcomma (hitem _))

theorem tidy_arguments : arguments.Tidy := .construct (.append tidy_mark (tidy_call rfl))

theorem tidy_template : template.Tidy := by
  refine reads_cursor.bind fun here => ?_
  refine Yields.bind (.append (tidy_leafOf rfl) (tidy_call rfl)) fun parts hparts => ?_
  exact yields_pure (hparts.node rfl).singleton

theorem tidy_templateParts {line : Nat} : (templateParts line).Tidy := by
  refine reads_cursor.bind fun here => ?_
  split
  · exact tidy_leafOf rfl
  · split
    · exact .append (tidy_leafOf rfl) (tidy_call rfl)
    · exact yields_refuse
  · refine Yields.bind (.append (.append (tidy_leafOf rfl) (tidy_part rfl)) tidy_mark)
      fun inside hinside => ?_
    refine Yields.bind (tidy_call rfl) fun others hothers => ?_
    exact yields_pure (hinside.of.singleton.append hothers)
  · exact .ite yields_refuseFrom (.append (tidy_leaf rfl) (tidy_call rfl))

theorem tidy_regexFlags : regexFlags.Tidy :=
  reads_cursor.bind fun _ => .ite (yields_pure allTidy_nil) (tidy_leaf rfl)

theorem tidy_regex : regex.Tidy := by
  refine Yields.construct ?_
  refine Yields.bind (tidy_leafOf rfl) fun opening hopening => ?_
  refine Yields.bind (tidy_scanned rfl) fun pattern hpattern => ?_
  refine Yields.bind (.append (tidy_leafOf rfl) tidy_regexFlags) fun closing hclosing => ?_
  exact .ite yields_refuse (yields_pure ((hopening.append hpattern).append hclosing))

/-! ## Functions, objects and classes -/

theorem tidy_parameters : parameters.Tidy := by
  refine tidy_extras.bind fun before hbefore => ?_
  refine reads_cursor.bind fun here => ?_
  refine tidy_mark.bind fun opening hopening => ?_
  refine Yields.bind (tidy_call rfl) fun found hfound => ?_
  split
  · exact yields_refuse
  · next items closing hsplit =>
    obtain ⟨hitems, hclosing⟩ := allTidy_splitLast hfound hsplit
    split
    · next t ht =>
      have htidy := Tree.tidy_toParameters? hopening hitems hclosing.singleton ht
      exact yields_pure (hbefore.append htidy.singleton)
    · exact yields_refuse

theorem tidy_functionNode {declares : Bool} : (functionNode declares).Tidy := by
  refine tidy_extras.bind fun before hbefore => ?_
  refine reads_cursor.bind fun here => ?_
  refine Yields.bind (.append (.whenNext tidy_keyword) tidy_keyword) fun head hhead => ?_
  refine tidy_mark.whenNext.bind fun star hstar => ?_
  refine Yields.bind (.whenNext (tidy_variableName rfl)) fun name hname => ?_
  refine Yields.bind (.append tidy_parameters (tidy_part rfl)) fun rest hrest => ?_
  have hparts := ((hhead.append hstar).append hname).append hrest
  exact yields_pure (hbefore.append hparts.of.singleton)

theorem tidy_arrowBody {site : Site} : (arrowBody site).Tidy :=
  reads_look.bind fun _ => .ite (.ite (tidy_choose rfl rfl) (tidy_choose rfl rfl)) (tidy_call rfl)

theorem tidy_privateName : privateName.Tidy := by
  refine reads_look.bind fun rest => ?_
  split
  · exact .ite yields_refuse (tidy_leaf rfl)
  · exact yields_refuse

theorem tidy_propertyName : propertyName.Tidy := by
  refine reads_look.bind fun rest => ?_
  split
  · exact yields_refuse
  · refine .ite ?_ (.ite (tidy_leafOf rfl) (.ite ?_ (.ite tidy_privateName ?_)))
    · exact Yields.append tidy_extras (tidy_scanned rfl)
    · exact .construct (.append (.append tidy_mark (tidy_part rfl)) tidy_mark)
    · exact .ite yields_refuse (tidy_leaf rfl)

theorem tidy_modifier {inClass : Bool} {words : List String} : (modifier inClass words).Tidy :=
  reads_look.bind fun _ => .ite (tidy_leaf rfl) (yields_pure allTidy_nil)

theorem tidy_modifiers {inClass : Bool} : (modifiers inClass).Tidy :=
  ((tidy_modifier.append tidy_modifier).append tidy_mark.whenNext).append tidy_modifier

theorem allTidy_lastAs {kind : Kind} (h : kind.isComment = false) {trees : List Tree}
    (htrees : AllTidy trees) : AllTidy (lastAs kind trees) := by
  rw [lastAs]
  split
  · next before t hsplit =>
    obtain ⟨hbefore, ht⟩ := allTidy_splitLast htrees hsplit
    exact hbefore.append (ht.withKind h).singleton
  · exact htrees

theorem tidy_property : property.Tidy := by
  refine tidy_extras.bind fun before hbefore => ?_
  refine reads_cursor.bind fun here => ?_
  refine Yields.bind (.append (tidy_call rfl) tidy_modifiers) fun head hhead => ?_
  refine tidy_propertyName.bind fun name hname => ?_
  refine reads_look.bind fun next => ?_
  split
  · refine Yields.bind (.append tidy_parameters (tidy_part rfl)) fun rest hrest => ?_
    exact yields_pure (hbefore.append ((hhead.append hname).append hrest).of.singleton)
  · refine Yields.bind (.append tidy_mark (tidy_part rfl)) fun rest hrest => ?_
    exact .ite (yields_pure (hbefore.append (hname.append hrest).of.singleton)) yields_refuse
  · refine .ite ?_ yields_refuse
    refine Yields.bind (.append tidy_mark (tidy_part rfl)) fun value hvalue => ?_
    exact yields_pure (hbefore.append ((allTidy_lastAs rfl hname).append hvalue).of.singleton)
  · exact .ite (yields_pure (hbefore.append (allTidy_lastAs rfl hname))) yields_refuse

theorem tidy_properties {fresh : Bool} : (properties fresh).Tidy := by
  refine reads_look.bind fun rest => ?_
  split
  · exact yields_refuse
  · refine .ite (tidy_leafOf rfl) (.ite (.append (tidy_leafOf rfl) (tidy_call rfl)) (.ite ?_ yields_refuse))
    exact Yields.append (.ite tidy_spread tidy_property) (tidy_call rfl)

theorem tidy_dotted {left : Tree} (hleft : left.Tidy) : (dotted left).Tidy := by
  refine reads_lookBehind.bind fun rest => .ite ?_ (yields_pure hleft.singleton)
  refine Yields.bind (tidy_leafOf rfl) fun dot hdot => ?_
  refine reads_look.bind fun next => .ite yields_refuse ?_
  refine Yields.bind (tidy_leaf rfl) fun name hname => ?_
  exact tidy_callFrom rfl ((hleft.withRole.singleton.append hdot).append (allTidy_inRole hname)).of

theorem tidy_decorator : decorator.Tidy := by
  refine Yields.construct ?_
  refine tidy_mark.bind fun sign hsign => ?_
  refine tidy_extras.bind fun before hbefore => ?_
  refine Yields.bind (tidy_variableName rfl) fun first hfirst => ?_
  refine (yields_one hfirst).bind fun first hfirst => ?_
  refine (tidy_dotted hfirst).bind fun name hname => ?_
  refine (yields_one hname).bind fun name hname => ?_
  refine reads_lookBehind.bind fun rest => .ite ?_ ?_
  · refine tidy_arguments.bind fun given hgiven => ?_
    refine yields_pure ((hsign.append hbefore).append (Tree.Tidy.singleton ?_))
    exact (hname.withRole.singleton.append (allTidy_inRole hgiven)).of
  · exact yields_pure ((hsign.append hbefore).append hname.singleton)

theorem tidy_decorators : decorators.Tidy := .whenNext (.append tidy_decorator (tidy_call rfl))

theorem tidy_fieldValue : fieldValue.Tidy := by
  refine reads_omits.bind fun omitted => .ite (yields_pure allTidy_nil) ?_
  exact reads_lookBehind.bind fun rest => .ite (.append tidy_mark (tidy_part rfl)) (yields_pure allTidy_nil)

theorem tidy_member : member.Tidy := by
  refine tidy_extras.bind fun before hbefore => ?_
  refine reads_cursor.bind fun here => ?_
  refine Yields.bind (tidy_call rfl) fun marks hmarks => ?_
  refine reads_look.bind fun rest => .ite ?_ ?_
  · refine Yields.bind (.append (tidy_leaf rfl) (tidy_part rfl)) fun rest hrest => ?_
    exact yields_pure (hbefore.append (hmarks.append hrest).of.singleton)
  · refine tidy_modifiers.bind fun head hhead => ?_
    refine tidy_propertyName.bind fun name hname => ?_
    have hstart := (hmarks.append hhead).append hname
    refine reads_omits.bind fun omitted => ?_
    refine reads_lookBehind.bind fun rest => .ite ?_ ?_
    · refine Yields.bind (.append tidy_parameters (tidy_part rfl)) fun rest hrest => ?_
      exact yields_pure (hbefore.append (hstart.append hrest).of.singleton)
    · refine tidy_fieldValue.bind fun value hvalue => ?_
      refine tidy_semicolon.bind fun closing hclosing => ?_
      exact yields_pure ((hbefore.append (hstart.append hvalue).of.singleton).append hclosing)

theorem tidy_members : members.Tidy := by
  refine reads_look.bind fun rest => ?_
  split
  · exact yields_refuse
  · refine .ite (tidy_leafOf rfl) (.ite (.append (tidy_leafOf rfl) (tidy_call rfl)) ?_)
    exact .append tidy_member (tidy_call rfl)

theorem tidy_classParts : classParts.Tidy :=
  .append
    (.append (.append tidy_keyword (.whenNext (tidy_variableName rfl)))
      (.whenNext (.construct (.append tidy_keyword (tidy_part rfl)))))
    (.construct (.append tidy_mark (tidy_call rfl)))

/-! ## Imports and exports -/

theorem tidy_stringNode : stringNode.Tidy := by
  refine tidy_extras.bind fun before hbefore => ?_
  refine reads_cursor.bind fun here => ?_
  split
  · exact Yields.bind (tidy_scanned rfl) fun found hfound => yields_pure (hbefore.append hfound)
  · exact Yields.bind (tidy_scanned rfl) fun found hfound => yields_pure (hbefore.append hfound)
  · exact yields_refuse

theorem tidy_fromClause : fromClause.Tidy := .append tidy_keyword tidy_stringNode

theorem tidy_exportedName : exportedName.Tidy :=
  reads_look.bind fun _ => .ite tidy_stringNode (.ite tidy_keyword (tidy_variableName rfl))

theorem tidy_specifier {kind : Kind} : (specifier kind).Tidy :=
  .construct (.append tidy_exportedName (.whenNext (.append tidy_keyword tidy_exportedName)))

theorem tidy_specifiers : specifiers.Tidy := by
  refine reads_look.bind fun rest => ?_
  split
  · exact tidy_leafOf rfl
  · exact .append (tidy_leafOf rfl) (tidy_call rfl)
  · exact .append tidy_specifier (tidy_call rfl)

theorem tidy_names {kind item : Kind} (h : item.isComment = false) : (names kind item).Tidy := by
  refine Yields.construct ?_
  refine tidy_mark.bind fun opening hopening => ?_
  refine Yields.bind (tidy_call rfl) fun found hfound => .ite (yields_pure (hopening.append ?_)) yields_refuse
  intro t ht
  obtain ⟨u, hu, rfl⟩ := List.mem_map.mp ht
  split
  · exact (hfound u hu).withKind h
  · exact hfound u hu

theorem tidy_importedNames : importedNames.Tidy :=
  reads_look.bind fun _ =>
    .ite (.construct (.append (.append tidy_mark tidy_keyword) (tidy_variableName rfl))) (tidy_names rfl)

theorem tidy_importClause : importClause.Tidy :=
  Yields.construct <| reads_look.bind fun _ =>
    .ite tidy_importedNames
      (.append (tidy_variableName rfl) (.whenNext (.append tidy_mark tidy_importedNames)))

theorem tidy_importAttribute : importAttribute.Tidy := by
  refine reads_omits.bind fun omitted => .ite (yields_pure allTidy_nil) ?_
  refine reads_lookBehind.bind fun rest => .ite ?_ (yields_pure allTidy_nil)
  exact .construct (.append tidy_keyword (.construct (.append tidy_mark (tidy_call rfl))))

theorem tidy_importStatement : importStatement.Tidy := by
  refine Yields.construct ?_
  refine tidy_keyword.bind fun head hhead => ?_
  have hrest : ∀ source, AllTidy source → Tidy (do
      let rest ← importAttribute ++ semicolon false
      return head ++ source ++ rest) := by
    intro source hsource
    refine Yields.bind (.append tidy_importAttribute tidy_semicolon) fun rest hrest => ?_
    exact yields_pure ((hhead.append hsource).append hrest)
  refine reads_look.bind fun rest => .ite (Yields.bind tidy_stringNode hrest) ?_
  exact Yields.bind (.append tidy_importClause tidy_fromClause) hrest

theorem tidy_exportDefault : exportDefault.Tidy := by
  refine tidy_keyword.bind fun head hhead => ?_
  refine reads_look.bind fun rest => .ite ?_ ?_
  · exact Yields.bind (tidy_part rfl) fun value hvalue => yields_pure (hhead.append hvalue)
  · refine Yields.bind (.append (tidy_part rfl) tidy_semicolon) fun value hvalue => ?_
    exact yields_pure (hhead.append hvalue)

theorem tidy_exported : exported.Tidy := by
  refine reads_look.bind fun rest => ?_
  refine .ite ?_ (.ite ?_ (.ite tidy_exportDefault (.ite (tidy_part rfl) yields_refuse)))
  · refine Yields.append (Yields.append (.ite ?_ tidy_mark) tidy_fromClause) tidy_semicolon
    exact .construct (.append (.append tidy_mark tidy_keyword) tidy_exportedName)
  · refine Yields.bind (tidy_names rfl) fun clause hclause => ?_
    have hrest : ∀ source, AllTidy source → Tidy (do
        let closing ← semicolon false
        return clause ++ source ++ closing) := by
      intro source hsource
      refine Yields.bind tidy_semicolon fun closing hclosing => ?_
      exact yields_pure ((hclause.append hsource).append hclosing)
    have hnone := Yields.bind (yields_pure allTidy_nil) hrest
    refine reads_omits.bind fun omitted => reads_lookBehind.bind fun next => ?_
    exact .ite hnone (.ite (.bind tidy_fromClause hrest) hnone)

theorem tidy_exportStatement {line : Nat} {marks : List Tree} (hmarks : AllTidy marks) :
    (exportStatement line marks).Tidy :=
  Yields.bind (.append tidy_keyword tidy_exported) fun _ hrest =>
    yields_pure (hmarks.append hrest).of.singleton

/-! ## Expressions -/

theorem tidy_nameOrArrow {site : Site} {word after : List Char} : (nameOrArrow site word after).Tidy := by
  refine reads_cursor.bind fun here => ?_
  refine Yields.bind (tidy_leaf rfl) fun name hname => ?_
  refine reads_lookBehind.bind fun next => .ite ?_ (yields_pure hname)
  refine Yields.bind (.append tidy_mark (tidy_part rfl)) fun rest hrest => ?_
  exact yields_pure (hname.append hrest).of.singleton

theorem tidy_argumentsToParameters? {t p : Tree} (ht : t.Tidy) (h : argumentsToParameters? t = some p) :
    p.Tidy := by
  rw [argumentsToParameters?.eq_def] at h
  split at h
  · next label opening items =>
    obtain ⟨⟨inside, closing⟩, hsplit, h⟩ := Option.bind_eq_some_iff.mp h
    obtain ⟨hopening, hitems⟩ := List.forall_mem_cons.mp (Tree.tidy_node.mp ht).2
    obtain ⟨hinside, hclosing⟩ := allTidy_splitLast hitems hsplit
    exact Tree.tidy_toParameters? (Tree.Tidy.singleton hopening) hinside hclosing.singleton h
  · cases h

/-- A call of `async`, or an arrow function whose parameters were read as the arguments of such a call. -/
theorem tidy_asyncCallOrArrow {site : Site} {word after : List Char} :
    (asyncCallOrArrow site word after).Tidy := by
  refine reads_cursor.bind fun here => ?_
  refine Yields.bind (tidy_leaf rfl) fun name hname => ?_
  refine Yields.bind tidy_arguments fun found hfound => ?_
  refine reads_lookBehind.bind fun next => .ite ?_ ?_
  · split
    -- an arrow follows: the arguments are turned into parameters
    · next before list hsplit =>
      obtain ⟨hbefore, hlist⟩ := allTidy_splitLast hfound hsplit
      split
      · next parameters hparameters =>
        refine Yields.bind (.append tidy_mark (tidy_part rfl)) fun rest hrest => ?_
        have hhead : AllTidy (name.map (Tree.withKind .token)) := by
          intro t ht
          obtain ⟨u, hu, rfl⟩ := List.mem_map.mp ht
          exact (hname u hu).withKind rfl
        have hgiven := (tidy_argumentsToParameters? hlist hparameters).singleton
        exact yields_pure (((hhead.append hbefore).append hgiven).append hrest).of.singleton
      · exact yields_refuse
    · exact yields_refuse
  -- no arrow: it was a call
  · exact yields_pure ((allTidy_inRole hname).append (allTidy_inRole hfound)).of.singleton

theorem tidy_asyncOperand {site : Site} {word after : List Char} : (asyncOperand site word after).Tidy := by
  refine .ite tidy_nameOrArrow (.ite tidy_functionNode (.ite ?_ (.ite tidy_asyncCallOrArrow tidy_nameOrArrow)))
  refine Yields.construct ?_
  exact .append (.append (.append (tidy_leaf rfl) (tidy_variableName rfl)) tidy_mark) (tidy_part rfl)

/-- Items in parentheses: the parameters of an arrow function if an arrow follows, and an expression otherwise. -/
theorem tidy_parenthesized {site : Site} : (parenthesized site).Tidy := by
  refine reads_cursor.bind fun here => ?_
  refine Yields.bind tidy_mark fun opening hopening => ?_
  refine Yields.bind (tidy_call rfl) fun found hfound => ?_
  split
  · exact yields_refuse
  · next items closing hsplit =>
    obtain ⟨hitems, hclosing⟩ := allTidy_splitLast hfound hsplit
    refine reads_lookBehind.bind fun next => .ite ?_ ?_
    · split
      · next parameters hparameters =>
        have htidy := Tree.tidy_toParameters? hopening hitems hclosing.singleton hparameters
        refine Yields.bind (.append tidy_mark (tidy_part rfl)) fun rest hrest => ?_
        exact yields_pure (htidy.singleton.append hrest).of.singleton
      · exact yields_refuse
    · split
      · next t ht =>
        exact yields_pure (Tree.tidy_toParenthesized? hopening hitems hclosing.singleton ht).singleton
      · exact yields_refuse

theorem tidy_newOperand : newOperand.Tidy := by
  refine reads_cursor.bind fun here => ?_
  refine Yields.bind tidy_keyword fun head hhead => ?_
  refine reads_look.bind fun next => .ite ?_ ?_
  · refine Yields.bind (.append tidy_mark tidy_keyword) fun rest hrest => ?_
    exact yields_pure (hhead.append hrest).of.singleton
  · refine Yields.bind (tidy_part rfl) fun made hmade => ?_
    have hgiven : ∀ given, AllTidy given →
        Tidy (pure [Tree.of .newExpression here.line (head ++ made ++ given)]) :=
      fun given hgiven => yields_pure ((hhead.append hmade).append hgiven).of.singleton
    refine reads_lookBehind.bind fun next => ?_
    exact .ite (.bind tidy_arguments hgiven) (.bind (yields_pure allTidy_nil) hgiven)

theorem tidy_importOperand {word after : List Char} : (importOperand word after).Tidy := by
  rw [importOperand]
  split
  · exact tidy_leaf rfl
  · refine .ite ?_ (tidy_leaf rfl)
    exact .construct (.append (.append (tidy_leaf rfl) tidy_mark) tidy_keyword)
  · exact yields_refuse

theorem tidy_privateOperand : privateOperand.Tidy := by
  refine Yields.bind tidy_privateName fun name hname => ?_
  refine reads_lookBehind.bind fun next => ?_
  split
  · exact .ite (yields_pure hname) yields_refuse
  · exact yields_refuse

theorem isComment_of_wordKind? {word : List Char} {kind : Kind} (h : wordKind? word = some kind) :
    kind.isComment = false := by
  have hall : (wordKind? word).all (fun kind => kind.isComment == false) = true := by
    unfold wordKind?
    repeat' split
    all_goals rfl
  rw [h, Option.all_some, beq_iff_eq] at hall
  exact hall

theorem tidy_wordOperand {site : Site} : (wordOperand site).Tidy := by
  refine reads_look.bind fun rest => .ite yields_refuse ?_
  split
  · next kind hkind => exact tidy_leaf (isComment_of_wordKind? hkind)
  · refine .ite tidy_functionNode (.ite (.construct tidy_classParts) (.ite tidy_newOperand ?_))
    exact .ite tidy_importOperand (.ite tidy_asyncOperand (.ite yields_refuse tidy_nameOrArrow))

theorem tidy_primary {site : Site} : (primary site).Tidy := by
  refine reads_look.bind fun rest => ?_
  split
  · exact yields_refuse
  · have hlist : ∀ {kind opening goal}, goal.left? = none →
        Tidy (construct kind (mark opening ++ call goal)) :=
      fun hgoal => .construct (.append tidy_mark (tidy_call hgoal))
    refine .ite tidy_parenthesized (.ite (hlist rfl) (.ite (hlist rfl) (.ite (tidy_scanned rfl) ?_)))
    refine .ite tidy_template (.ite (tidy_leafOf rfl) (.ite tidy_regex (.ite (tidy_call rfl) (.ite ?_ ?_))))
    · exact .construct (.append (tidy_call rfl) tidy_classParts)
    · exact .ite tidy_privateOperand tidy_wordOperand

theorem tidy_memberName : memberName.Tidy :=
  reads_look.bind fun _ => .ite tidy_privateName (.ite yields_refuse (tidy_leaf rfl))

theorem tidy_index : index.Tidy := .append (.append tidy_mark (tidy_part rfl)) tidy_mark

/-- An operand with the member names, arguments, templates and counters that follow it. -/
theorem tidy_suffixes {site : Site} {calls : Bool} {left : Tree} (hleft : left.Tidy) :
    (suffixes site calls left).Tidy := by
  have hdone : Tidy (pure [left]) := yields_pure hleft.singleton
  -- every suffix becomes a node around what stands before it, and more suffixes may follow
  have hagain {kind : Kind} {line : Nat} {parts : List Tree} (hparts : AllTidy parts) :
      Tidy (call (.suffixes site calls (Tree.of kind line parts))) :=
    tidy_callFrom rfl hparts.of
  refine reads_ends.bind fun ended => .ite hdone ?_
  refine reads_lookBehind.bind fun rest => ?_
  split
  · exact hdone
  · refine .ite ?_ (.ite ?_ (.ite ?_ (.ite ?_ (.ite ?_ (.ite ?_ hdone)))))
    · refine Yields.bind (tidy_leafOf rfl) fun dot hdot => Yields.bind tidy_memberName fun name hname => ?_
      exact hagain ((hleft.withRole.singleton.append hdot).append (allTidy_inRole hname))
    · refine Yields.bind (tidy_leafOf rfl) fun chain hchain => reads_look.bind fun next => ?_
      split
      · refine Yields.bind tidy_arguments fun given hgiven => ?_
        exact hagain ((hleft.withRole.singleton.append hchain).append (allTidy_inRole hgiven))
      · refine Yields.bind tidy_index fun found hfound => ?_
        exact hagain ((hleft.singleton.append hchain).append hfound)
      · refine Yields.bind tidy_memberName fun name hname => ?_
        exact hagain ((hleft.withRole.singleton.append hchain).append (allTidy_inRole hname))
    · refine Yields.bind tidy_index fun found hfound => ?_
      exact hagain (hleft.singleton.append hfound)
    · refine Yields.bind tidy_arguments fun given hgiven => ?_
      exact hagain (hleft.withRole.singleton.append (allTidy_inRole hgiven))
    · refine Yields.bind tidy_extras fun before hbefore => Yields.bind tidy_template fun text htext => ?_
      exact hagain ((hleft.withRole.singleton.append hbefore).append (allTidy_inRole htext))
    · refine Yields.bind (tidy_leafOf rfl) fun counter hcounter => ?_
      exact hagain (hleft.singleton.append hcounter)

theorem tidy_target {site : Site} : (target site).Tidy :=
  .bind tidy_primary fun _ hfound => .bind (yields_one hfound) fun _ hleft => tidy_suffixes hleft

theorem tidy_constructed : constructed.Tidy :=
  .bind tidy_primary fun _ hfound => .bind (yields_one hfound) fun _ hleft => tidy_suffixes hleft

theorem tidy_yieldOperand {site : Site} : (yieldOperand site).Tidy := by
  refine .construct ?_
  refine Yields.bind tidy_keyword fun head hhead => ?_
  refine reads_ends.bind fun ended => .ite (yields_pure hhead) ?_
  refine reads_lookBehind.bind fun rest => .ite ?_ (.ite ?_ (yields_pure hhead))
  · refine Yields.bind (.append tidy_mark (tidy_part rfl)) fun value hvalue => ?_
    exact yields_pure (hhead.append hvalue)
  · exact Yields.bind (tidy_part rfl) fun value hvalue => yields_pure (hhead.append hvalue)

theorem tidy_assignment {site : Site} : (assignment site).Tidy := by
  refine Yields.bind tidy_target fun found hfound => ?_
  refine Yields.bind (yields_one hfound) fun left hleft => ?_
  have hdone : Tidy (pure [left]) := yields_pure hleft.singleton
  refine reads_ends.bind fun ended => .ite hdone ?_
  refine reads_lookBehind.bind fun next => ?_
  split
  · exact hdone
  · refine .ite ?_ (.ite ?_ hdone)
    · split
      · exact hdone
      · next assigned hassigned =>
        have htidy := Tree.tidy_toAssigned? hleft hassigned
        refine Yields.bind (.append (tidy_leaf rfl) (tidy_part rfl)) fun value hvalue => ?_
        exact yields_pure (htidy.singleton.append hvalue).of.singleton
    · refine Yields.bind (.append (tidy_leaf rfl) (tidy_part rfl)) fun value hvalue => ?_
      exact yields_pure (hleft.singleton.append hvalue).of.singleton

theorem tidy_operand {site : Site} : (operand site).Tidy := by
  refine reads_look.bind fun rest => ?_
  split
  · exact .construct (.append (tidy_leafOf rfl) (tidy_part rfl))
  · exact .construct (.append (tidy_leafOf rfl) (tidy_part rfl))
  · refine .ite (.construct (.append (tidy_leafOf rfl) (tidy_part rfl))) (.ite ?_ (.ite ?_ ?_))
    · exact .construct (.append (tidy_leaf rfl) (tidy_part rfl))
    · exact .construct (.append (tidy_leaf rfl) (tidy_part rfl))
    · exact .ite tidy_yieldOperand tidy_assignment
  · exact yields_refuse

theorem tidy_operators {site : Site} {level : Nat} {left : Tree} (hleft : left.Tidy) :
    (operators site level left).Tidy := by
  have hdone : Tidy (pure [left]) := yields_pure hleft.singleton
  refine reads_ends.bind fun ended => .ite hdone ?_
  refine reads_lookBehind.bind fun next => ?_
  split
  · exact hdone
  · split
    · exact hdone
    · refine .ite hdone ?_
      refine Yields.bind (.append (tidy_leaf rfl) (tidy_part rfl)) fun right hright => ?_
      exact tidy_callFrom rfl (hleft.singleton.append hright).of

theorem tidy_binary {site : Site} {level : Nat} : (binary site level).Tidy :=
  .bind tidy_operand fun _ hfound => .bind (yields_one hfound) fun _ hleft => tidy_operators hleft

theorem tidy_expression {site : Site} : (expression site).Tidy := by
  refine Yields.bind tidy_binary fun found hfound => ?_
  refine Yields.bind (yields_one hfound) fun test htest => ?_
  have hdone : Tidy (pure [test]) := yields_pure htest.singleton
  refine reads_ends.bind fun ended => .ite hdone ?_
  refine reads_lookBehind.bind fun next => .ite ?_ hdone
  refine Yields.bind (.append (.append (.append (tidy_leafOf rfl) (tidy_part rfl)) tidy_mark)
    (tidy_part rfl)) fun rest hrest => ?_
  exact yields_pure (htest.singleton.append hrest).of.singleton

theorem tidy_moreExpressions {site : Site} : (moreExpressions site).Tidy := by
  refine reads_ends.bind fun ended => .ite (yields_pure allTidy_nil) ?_
  refine reads_lookBehind.bind fun next => .ite ?_ (yields_pure allTidy_nil)
  exact .append (.append (tidy_leafOf rfl) (tidy_part rfl)) (tidy_call rfl)

theorem tidy_expressions {site : Site} : (expressions site).Tidy := by
  refine Yields.bind tidy_expression fun found hfound => ?_
  refine Yields.bind (yields_one hfound) fun first hfirst => ?_
  refine Yields.bind tidy_moreExpressions fun more hmore => ?_
  exact .ite (yields_pure hfirst.singleton) (yields_pure (hfirst.singleton.append hmore).of.singleton)

/-! ## Statements -/

theorem tidy_block : block.Tidy := by
  refine Yields.bind (.construct (.append (.append tidy_mark (tidy_call rfl)) tidy_mark))
    fun found hfound => ?_
  exact reads_closeBlock.bind fun _ => yields_pure hfound

theorem tidy_condition : condition.Tidy := .construct (.append (.append tidy_mark (tidy_part rfl)) tidy_mark)

theorem tidy_binding : binding.Tidy := by
  refine reads_look.bind fun rest => .ite ?_ (tidy_variableName rfl)
  refine Yields.bind tidy_primary fun found hfound => ?_
  refine Yields.bind (yields_one hfound) fun literal hliteral => ?_
  split
  · next pattern hpattern => exact yields_pure (Tree.tidy_toPattern? _ _ hliteral hpattern).singleton
  · exact yields_refuse

theorem tidy_initializer {site : Site} : (initializer site).Tidy := by
  refine reads_omits.bind fun omitted => .ite (yields_pure allTidy_nil) ?_
  refine reads_lookBehind.bind fun next => ?_
  split
  · exact .ite (.append tidy_mark (tidy_part rfl)) (yields_pure allTidy_nil)
  · exact yields_pure allTidy_nil

theorem tidy_declarators : declarators.Tidy := by
  refine Yields.bind tidy_extras fun before hbefore => ?_
  refine reads_cursor.bind fun here => ?_
  refine Yields.bind (tidy_call rfl) fun name hname => ?_
  refine Yields.bind tidy_initializer fun value hvalue => ?_
  have hfound : AllTidy (before ++ [Tree.of .variableDeclarator here.line (name ++ value)]) :=
    hbefore.append (hname.append hvalue).of.singleton
  refine reads_omits.bind fun omitted => .ite (yields_pure hfound) ?_
  refine reads_lookBehind.bind fun next => .ite ?_ (yields_pure hfound)
  refine Yields.bind (.append (tidy_leafOf rfl) (tidy_call rfl)) fun others hothers => ?_
  exact yields_pure (hfound.append hothers)

theorem tidy_variableList {kind : Kind} {word : String} : (variableList kind word).Tidy := by
  refine .construct ?_
  refine Yields.bind tidy_keyword fun head hhead => ?_
  refine Yields.bind (tidy_call rfl) fun found hfound => ?_
  refine Yields.bind tidy_semicolon fun closing hclosing => ?_
  exact yields_pure ((hhead.append hfound).append hclosing)

theorem tidy_classStatement {line : Nat} {marks : List Tree} (hmarks : AllTidy marks) :
    (classStatement line marks).Tidy := by
  refine Yields.bind tidy_classParts fun found hfound => ?_
  exact reads_closeBlock.bind fun _ => yields_pure (hmarks.append hfound).of.singleton

theorem tidy_declaration : declaration.Tidy := by
  refine reads_look.bind fun rest => ?_
  refine .ite tidy_variableList (.ite tidy_variableList (.ite tidy_variableList (.ite ?_ ?_)))
  · refine reads_cursor.bind fun here => ?_
    exact .bind (tidy_call rfl) fun marks hmarks => tidy_classStatement hmarks
  · exact .ite tidy_functionNode yields_refuse

theorem tidy_loopTarget : loopTarget.Tidy := by
  refine reads_look.bind fun rest => ?_
  have hbound {word : String} : Tidy (keyword word ++ part .binding) := .append tidy_keyword (tidy_part rfl)
  refine .ite (.append hbound tidy_initializer) (.ite hbound (.ite hbound ?_))
  refine Yields.bind tidy_extras fun before hbefore => ?_
  refine Yields.bind (tidy_call rfl) fun found hfound => ?_
  refine Yields.bind (yields_one hfound) fun left hleft => ?_
  split
  · next assigned hassigned =>
    exact yields_pure (hbefore.append (Tree.tidy_toAssigned? hleft hassigned).singleton)
  · exact yields_refuse

theorem tidy_loopWord : loopWord.Tidy := reads_lookBehind.bind fun _ => .ite (tidy_leaf rfl) yields_refuse

theorem tidy_forIn : forIn.Tidy :=
  .construct
    (.append (.append (.append (.append tidy_mark tidy_loopTarget) tidy_loopWord) (tidy_part rfl)) tidy_mark)

theorem tidy_loopPart : loopPart.Tidy :=
  reads_look.bind fun _ => .ite (tidy_leafOf rfl) (.append (tidy_part rfl) tidy_mark)

theorem tidy_loopStart : loopStart.Tidy := reads_look.bind fun _ => .ite (tidy_part rfl) tidy_loopPart

theorem tidy_forCounter : forCounter.Tidy :=
  .construct
    (.append (.append (.append (.append tidy_mark tidy_loopStart) tidy_loopPart) (.whenNext (tidy_part rfl)))
      tidy_mark)

theorem tidy_forStatement : forStatement.Tidy := by
  refine reads_cursor.bind fun here => ?_
  refine Yields.bind (.append tidy_keyword (.whenNext tidy_keyword)) fun start hstart => ?_
  refine Yields.bind tidy_extras fun before hbefore => ?_
  refine Yields.bind (tidy_choose rfl rfl) fun found hfound => ?_
  refine Yields.bind (yields_one hfound) fun head hhead => ?_
  refine Yields.bind (tidy_part rfl) fun body hbody => ?_
  exact yields_pure (((hstart.append hbefore).append hhead.children).append hbody).of.singleton

theorem tidy_ifStatement : ifStatement.Tidy :=
  .construct
    (.append (.append (.append tidy_keyword (tidy_part rfl)) (tidy_part rfl))
      (.whenNext (.construct (.append tidy_keyword (tidy_part rfl)))))

theorem tidy_doStatement : doStatement.Tidy := by
  refine .construct ?_
  refine Yields.bind (.append (.append (.append tidy_keyword (tidy_part rfl)) tidy_keyword) (tidy_part rfl))
    fun found hfound => ?_
  refine reads_omits.bind fun omitted => .ite ?_ ?_
  · exact reads_closeBlock.bind fun _ => yields_pure hfound
  · refine reads_lookBehind.bind fun next => .ite ?_ (yields_pure hfound)
    exact Yields.bind (tidy_leafOf rfl) fun closing hclosing => yields_pure (hfound.append hclosing)

theorem tidy_switchCase : switchCase.Tidy :=
  reads_look.bind fun _ =>
    .ite (.construct (.append (.append (.append tidy_keyword (tidy_part rfl)) tidy_mark) (tidy_call rfl)))
      (.construct (.append (.append tidy_keyword tidy_mark) (tidy_call rfl)))

theorem tidy_cases : cases.Tidy :=
  reads_look.bind fun _ => .ite (tidy_leafOf rfl) (.append tidy_switchCase (tidy_call rfl))

theorem tidy_switchStatement : switchStatement.Tidy :=
  .construct (.append (.append tidy_keyword (tidy_part rfl)) (.construct (.append tidy_mark (tidy_call rfl))))

theorem tidy_catchClause : catchClause.Tidy :=
  .construct
    (.append (.append tidy_keyword (.whenNext (.append (.append tidy_mark (tidy_part rfl)) tidy_mark)))
      (tidy_part rfl))

theorem tidy_tryStatement : tryStatement.Tidy :=
  .construct
    (.append (.append (.append tidy_keyword (tidy_part rfl)) (.whenNext tidy_catchClause))
      (.whenNext (.construct (.append tidy_keyword (tidy_part rfl)))))

/-- How a jump or a `return` ends: without a semicolon, with one, or behind something else. -/
theorem tidy_jumpEnd {head : List Tree} (hhead : AllTidy head) {r : Rule (List Tree)} (hr : r.Tidy) :
    Tidy (do
      if ← omits false then return head ++ (← semicolon false)
      else if nextIs ';' (← lookBehind) then return head ++ (← leafOf .token 1)
      else return head ++ (← r)) := by
  refine reads_omits.bind fun omitted => .ite ?_ ?_
  · exact Yields.bind tidy_semicolon fun closing hclosing => yields_pure (hhead.append hclosing)
  · refine reads_lookBehind.bind fun next => .ite ?_ ?_
    · exact Yields.bind (tidy_leafOf rfl) fun closing hclosing => yields_pure (hhead.append hclosing)
    · exact Yields.bind hr fun rest hrest => yields_pure (hhead.append hrest)

theorem tidy_jump {kind : Kind} {word : String} : (jump kind word).Tidy :=
  .construct <| .bind tidy_keyword fun _ hhead =>
    tidy_jumpEnd hhead (.append (tidy_variableName rfl) tidy_semicolon)

theorem tidy_returnStatement : returnStatement.Tidy :=
  .construct (.bind tidy_keyword fun _ hhead => tidy_jumpEnd hhead (.append (tidy_part rfl) tidy_semicolon))

theorem tidy_expressionStatement : expressionStatement.Tidy :=
  .construct (.append (tidy_part rfl) tidy_semicolon)

theorem tidy_labelled {word after : List Char} : (labelled word after).Tidy :=
  .construct (.append (.append (tidy_leaf rfl) tidy_mark) (tidy_part rfl))

theorem tidy_wordStatement {word after rest : List Char} : (wordStatement word after rest).Tidy := by
  have hguarded {kind : Kind} {word : String} :
      Tidy (construct kind (keyword word ++ part .condition ++ part .statement)) :=
    .construct (.append (.append tidy_keyword (tidy_part rfl)) (tidy_part rfl))
  refine .ite (tidy_call rfl) (.ite tidy_ifStatement (.ite tidy_forStatement (.ite hguarded ?_)))
  refine .ite tidy_doStatement (.ite tidy_switchStatement (.ite tidy_tryStatement (.ite hguarded ?_)))
  refine .ite tidy_returnStatement (.ite ?_ (.ite tidy_jump (.ite tidy_jump (.ite ?_ ?_))))
  · exact .construct (.append (.append tidy_keyword (tidy_part rfl)) tidy_semicolon)
  · exact .construct (.append tidy_keyword tidy_semicolon)
  · refine .ite tidy_importStatement (.ite ?_ (.ite (tidy_call rfl) ?_))
    · exact reads_cursor.bind fun _ => tidy_exportStatement allTidy_nil
    · exact .ite tidy_labelled tidy_expressionStatement

theorem tidy_decorated : decorated.Tidy := by
  refine reads_cursor.bind fun here => ?_
  refine Yields.bind (tidy_call rfl) fun marks hmarks => ?_
  refine reads_look.bind fun rest => .ite ?_ (tidy_classStatement hmarks)
  exact Yields.bind tidy_extras fun before hbefore => tidy_exportStatement (hmarks.append hbefore)

theorem tidy_statement : statement.Tidy := by
  refine reads_look.bind fun rest => ?_
  split
  · exact yields_refuse
  · refine .ite ?_ (.ite (tidy_leafOf rfl) (.ite tidy_decorated ?_))
    · exact .ite (tidy_choose rfl rfl) (tidy_choose rfl rfl)
    · exact .ite tidy_expressionStatement tidy_wordStatement

theorem tidy_statements {inCase : Bool} : (statements inCase).Tidy :=
  reads_look.bind fun _ =>
    .ite (yields_pure allTidy_nil) (.ite (yields_pure allTidy_nil) (.append (tidy_part rfl) (tidy_call rfl)))

theorem reads_anchorHere : anchorHere.Reads := fun _ hc => ⟨trivial, hc⟩

theorem tidy_program : program.Tidy :=
  reads_look.bind fun _ =>
    .ite tidy_extras (reads_anchorHere.bind fun _ => .append (tidy_part rfl) (tidy_call rfl))

/-! ## Elements -/

theorem tidy_elementExpression : elementExpression.Tidy := by
  refine .construct ?_
  refine Yields.bind tidy_mark fun opening hopening => ?_
  have hclosed : ∀ inside, AllTidy inside → Tidy (do
      let closing ← mark ['}']
      return opening ++ inside ++ closing) := by
    intro inside hinside
    refine Yields.bind tidy_mark fun closing hclosing => ?_
    exact yields_pure ((hopening.append hinside).append hclosing)
  refine reads_look.bind fun rest => ?_
  exact .ite (.bind (yields_pure allTidy_nil) hclosed)
    (.ite (.bind tidy_spread hclosed) (.bind (tidy_part rfl) hclosed))

theorem tidy_tagWord {kind : Kind} (h : kind.isComment = false) : (tagWord kind).Tidy :=
  reads_look.bind fun _ => .ite yields_refuse (tidy_leaf h)

theorem tidy_namespaced {first : Tree} (hfirst : first.Tidy) : (namespaced first).Tidy := by
  refine Yields.bind (.append tidy_mark (tidy_tagWord rfl)) fun rest hrest => ?_
  exact yields_pure ((hfirst.withKind rfl).singleton.append hrest).of.singleton

theorem tidy_elementName : elementName.Tidy := by
  refine Yields.bind tidy_extras fun before hbefore => ?_
  refine Yields.bind (tidy_tagWord rfl) fun found hfound => ?_
  refine Yields.bind (yields_one hfound) fun first hfirst => .ite yields_refuse ?_
  refine reads_lookBehind.bind fun next => ?_
  split
  · exact Yields.bind (tidy_namespaced hfirst) fun name hname => yields_pure (hbefore.append hname)
  · exact Yields.bind (tidy_dotted hfirst) fun name hname => yields_pure (hbefore.append hname)
  · exact yields_pure (hbefore.append hfirst.singleton)

theorem tidy_attributeValue : attributeValue.Tidy := by
  refine reads_look.bind fun rest => ?_
  split
  · exact tidy_elementExpression
  · exact tidy_part rfl
  · exact .ite (.append tidy_extras (tidy_scanned rfl)) yields_refuse
  · exact yields_refuse

theorem tidy_namedAttribute : namedAttribute.Tidy := by
  refine .construct ?_
  refine Yields.bind (tidy_tagWord rfl) fun found hfound => ?_
  refine Yields.bind (yields_one hfound) fun first hfirst => ?_
  have hvalue : ∀ name, AllTidy name → Tidy (do
      let value ← whenNext (nextIs '=') (mark ['='] ++ attributeValue)
      return name ++ value) := by
    intro name hname
    refine Yields.bind (.whenNext (.append tidy_mark tidy_attributeValue)) fun value hvalue => ?_
    exact yields_pure (hname.append hvalue)
  refine reads_look.bind fun next => ?_
  exact .ite (.bind (tidy_namespaced hfirst) hvalue) (.bind (yields_pure hfirst.singleton) hvalue)

theorem tidy_attributes : attributes.Tidy := by
  refine reads_look.bind fun rest => ?_
  split
  · exact .append tidy_elementExpression (tidy_call rfl)
  · exact .ite (.append tidy_namedAttribute (tidy_call rfl)) (yields_pure allTidy_nil)
  · exact yields_pure allTidy_nil

theorem reads_pass {taken rest : List Char} : (pass taken rest).Reads := fun _ hc => ⟨trivial, hc⟩

theorem tidy_elementChildren : elementChildren.Tidy := by
  refine reads_cursor.bind fun here => .ite (.append (tidy_leaf rfl) (tidy_call rfl)) ?_
  refine reads_pass.bind fun _ => ?_
  split
  · exact yields_pure allTidy_nil
  · exact .ite (.append (tidy_leaf rfl) (tidy_call rfl)) (.append (tidy_call rfl) (tidy_call rfl))
  · exact .append tidy_elementExpression (tidy_call rfl)
  · split
    · exact .append (tidy_leafOf rfl) (tidy_call rfl)
    · exact yields_refuse
  · exact yields_refuse

theorem tidy_closingTag : closingTag.Tidy :=
  .construct (.append (.append tidy_mark (.whenNext tidy_elementName)) tidy_mark)

theorem tidy_element : element.Tidy := by
  refine reads_cursor.bind fun here => ?_
  refine Yields.bind (tidy_leafOf rfl) fun opening hopening => ?_
  refine Yields.bind (.whenNext (.append tidy_elementName (tidy_call rfl))) fun head hhead => ?_
  refine reads_look.bind fun next => .ite ?_ ?_
  · refine Yields.bind tidy_mark fun closing hclosing => ?_
    exact yields_pure ((hopening.append hhead).append hclosing).of.singleton
  · refine Yields.bind tidy_mark fun closing hclosing => ?_
    refine Yields.bind (.append (tidy_call rfl) tidy_closingTag) fun rest hrest => ?_
    exact yields_pure (((hopening.append hhead).append hclosing).of.singleton.append hrest).of.singleton

/-! ## Whole scripts -/

/-- **Every rule** finds tidy trees. -/
theorem tidy_rules (goal : Goal) (h : goal.Tidy) : (rules goal).Tidy := by
  cases goal with
  | program => exact tidy_program
  | statements inCase => exact tidy_statements
  | statement => exact tidy_statement
  | expressionStatement => exact tidy_expressionStatement
  | block => exact tidy_block
  | declaration => exact tidy_declaration
  | declarators => exact tidy_declarators
  | binding => exact tidy_binding
  | condition => exact tidy_condition
  | forIn => exact tidy_forIn
  | forCounter => exact tidy_forCounter
  | cases => exact tidy_cases
  | members => exact tidy_members
  | specifiers => exact tidy_specifiers
  | decorators => exact tidy_decorators
  | expressions site => exact tidy_expressions
  | moreExpressions site => exact tidy_moreExpressions
  | expression site => exact tidy_expression
  | binary site level => exact tidy_binary
  | operators site level left => exact tidy_operators (h left rfl)
  | operand site => exact tidy_operand
  | target site => exact tidy_target
  | constructor => exact tidy_constructed
  | suffixes site calls left => exact tidy_suffixes (h left rfl)
  | arrowBody site => exact tidy_arrowBody
  | elements close fresh => exact tidy_elements
  | properties fresh => exact tidy_properties
  | templateParts line => exact tidy_templateParts
  | element => exact tidy_element
  | attributes => exact tidy_attributes
  | elementChildren => exact tidy_elementChildren
  | dotted left => exact tidy_dotted (h left rfl)

theorem tidy_script : script.Tidy :=
  .append (reads_look.bind fun _ => .ite (tidy_leaf rfl) (yields_pure allTidy_nil)) (tidy_call rfl)

end Grammar

/-- **Comments of scripts.** In the tree of every text, a comment that starts with two slashes holds no line
feed. -/
theorem tidy_parse (text : List Char) : (parse text).Tidy := by
  have hstep := Grammar.tidy_script (Cursor.start text) (Cursor.tidy_start text)
  have hrun : (Machine.run Grammar.rules (rounds text.length) (Grammar.script (Cursor.start text))).Tidy :=
    Machine.tidy_run Grammar.tidy_rules hstep
  rw [parse]
  split
  · next children hfound =>
    rw [hfound] at hrun
    exact AllTidy.of hrun
  · exact (Tree.Tidy.singleton allTidy_nil.of).of
  · exact (Tree.Tidy.singleton allTidy_nil.of).of

end Phrasebook.Script
