import Phrasebook.Proofs.Halting

/-!
# Phrasebook — every text is read to its end

Every rule of the grammar asks for few goals, and before it has read a character only for goals of a smaller
rank. So the rounds in which a text is read suffice: the machine finds the trees of the text, or it refuses the
text when nothing is left to try. It never stops on the way, however deep a script nests.

The lemmas follow the modules of the grammar, one for each rule. Where a rule may start with a goal, the lemma
asks for a rank above that of the goal.

Main results:

* `Grammar.takes_rules` — how every rule asks for goals;
* `Script.ended_run` — the machine reads every text to its end.
-/

namespace Phrasebook.Script

namespace Grammar

open Rule Cursor

variable {P : Cursor → Prop} {rank : Nat}

/-! ## Literals -/

theorem takesFrom_spread : spread.TakesFrom P rank true 1 :=
  .of (.construct (.append (takesFrom_mark rfl) (takesFrom_part rfl))) rfl

/-- Items behind a comma are read like those at the start. -/
theorem takesFrom_comma {c close : Char} {text : List Char} :
    (leafOf .token 1 ++ call (.elements close true)).TakesFrom (Facing (c :: text)) rank true 1 :=
  .of (.append takesFrom_leafOf_facing (takesFrom_call rfl)) rfl

theorem takes_elements {close : Char} {fresh : Bool} :
    (elements close fresh).Takes (Goal.elements close fresh).rank false 2 := by
  cases fresh with
  | false =>
    refine takesFrom_lookBehind_bind fun text => ?_
    cases text with
    | nil => exact takesFrom_refuse
    | cons c text => exact .ite (.of takesFrom_leafOf rfl) (.ite (.of takesFrom_comma rfl) takesFrom_refuse)
  | true =>
    refine takesFrom_look_bind fun text => ?_
    cases text with
    | nil => exact takesFrom_refuse
    | cons c text =>
      refine .ite (.of takesFrom_leafOf rfl) (.ite (.of takesFrom_comma rfl) ?_)
      exact .of (.append (.ite takesFrom_spread (.of (takesFrom_part rfl) rfl)) (takesFrom_call rfl)) rfl

theorem takesFrom_arguments : arguments.TakesFrom P rank true 1 :=
  .of (.construct (.append (takesFrom_mark rfl) (takesFrom_call rfl))) rfl

theorem takesFrom_template {c : Char} {text : List Char} :
    template.TakesFrom (Facing (c :: text)) rank true 1 :=
  .peek peeks_cursor fun _ => .of (.map (.append takesFrom_leafOf_facing (takesFrom_call rfl)) _) rfl

theorem takes_templateParts {line : Nat} : (templateParts line).Takes 0 false 2 := by
  refine takesFrom_here_bind fun here _ => ?_
  split
  · exact .of takesFrom_leafOf rfl
  · next hhere =>
    split
    · exact .of (.append (takesFrom_leafOf_here hhere) (takesFrom_call rfl)) rfl
    · exact takesFrom_refuse
  · next hhere =>
    refine .bind (.append (.append (takesFrom_leafOf_here hhere) (takesFrom_part rfl))
      (takesFrom_mark rfl)) rfl fun inside => ?_
    exact .of (.map (takesFrom_call rfl) _) rfl
  · refine .dite (fun _ => takesFrom_refuseFrom) fun htaken => ?_
    have hshorter := Lexeme.length_lt_of_append (Lexeme.fragment_append here.rest) (Bool.eq_false_iff.mpr htaken)
    exact .of (.append (takesFrom_leaf_here hshorter) (takesFrom_call rfl)) rfl

theorem takesFrom_regexFlags : regexFlags.TakesFrom P rank false 0 :=
  takesFrom_here_bind fun here _ => .ite takesFrom_pure (takesFrom_leaf fun c hc => by
    rw [hc]
    exact (List.drop_sublist _ here.rest).length_le)

theorem takesFrom_regex {c : Char} {text : List Char} : regex.TakesFrom (Facing (c :: text)) rank true 0 := by
  refine .constructFacing ?_
  refine .bind takesFrom_leafOf_facing rfl fun opening => ?_
  have hpattern : (scanned .regexPattern Lexeme.regex).Takes Goal.ranks false 0 :=
    takesFrom_scanned fun _ _ _ h => Lexeme.length_le_of_regexFrom h
  refine .bind hpattern rfl fun pattern => ?_
  refine .bind (.append takesFrom_leafOf takesFrom_regexFlags) rfl fun closing => ?_
  exact .ite takesFrom_refuse takesFrom_pure

/-! ## Functions, objects and classes -/

theorem takesFrom_parameters : parameters.TakesFrom P rank true 1 := by
  refine .bind takesFrom_extras rfl fun before => .peek peeks_cursor fun _ => ?_
  refine .bind (takesFrom_mark rfl) rfl fun opening => ?_
  refine .bind (takesFrom_call rfl) rfl fun found => ?_
  split
  · exact takesFrom_refuse
  · split
    · exact takesFrom_pure
    · exact takesFrom_refuse

theorem takesFrom_functionNode {declares : Bool} : (functionNode declares).TakesFrom P rank true 2 := by
  refine .bind takesFrom_extras rfl fun before => .peek peeks_cursor fun _ => ?_
  refine .bind (.append (.whenNext (takesFrom_keyword rfl)) (takesFrom_keyword rfl)) rfl fun head => ?_
  refine .bind (.whenNext (takesFrom_mark rfl)) rfl fun star => ?_
  refine .bind (.whenNext takesFrom_variableName) rfl fun name => ?_
  exact .of (.map (.append takesFrom_parameters (takesFrom_part rfl)) _) rfl

theorem takes_arrowBody {site : Site} : (arrowBody site).Takes 2 false 1 := by
  refine takesFrom_look_bind fun _ => .ite (.ite ?_ ?_) ?_
  · exact .of (takesFrom_choose rfl rfl) rfl
  · exact .of (takesFrom_choose rfl rfl) rfl
  · exact .of (takesFrom_call rfl) rfl

theorem takesFrom_privateName : privateName.TakesFrom P rank true 0 := by
  refine takesFrom_look_bind fun text => ?_
  split
  · next rest =>
    refine .ite takesFrom_refuse (takesFrom_leaf_facing ?_)
    exact Nat.lt_succ_of_le (Lexeme.length_le_of_append (Lexeme.name_append rest))
  · exact takesFrom_refuse

theorem takesFrom_string {kind : Kind} : (scanned kind Lexeme.string).TakesFrom P rank true 0 :=
  takesFrom_scanned fun _ _ _ h => Lexeme.length_lt_of_string h

/-- A word at the start of a text. -/
theorem takesFrom_word {kind : Kind} {text : List Char} :
    (if (Lexeme.name text).1.isEmpty then refuse
      else leaf kind (Lexeme.name text).1 (Lexeme.name text).2).TakesFrom (Facing text) rank true 0 :=
  .dite (fun _ => takesFrom_refuse) fun hword =>
    takesFrom_leaf_facing (Lexeme.length_name_lt (Bool.eq_false_iff.mpr hword))

/-- A number at the start of a text. -/
theorem takesFrom_number {kind : Kind} {c : Char} {text : List Char}
    (h : (c.isDigit || (c == '.' && text.head?.any Char.isDigit)) = true) :
    (leafOf kind (Lexeme.numberLength (c :: text))).TakesFrom (Facing (c :: text)) rank true 0 :=
  takesFrom_leafOf_of_ne (Lexeme.numberLength_pos h) fun _ hd => by simp [hd.2]

theorem takesFrom_propertyName : propertyName.TakesFrom P rank true 1 := by
  refine takesFrom_look_bind fun text => ?_
  cases text with
  | nil => exact takesFrom_refuse
  | cons c text =>
    refine .ite ?_ (.dite (fun hnumber => .of (takesFrom_number hnumber) rfl) fun _ => ?_)
    · exact .of (.andThen takesFrom_extras fun _ => .map takesFrom_string _) rfl
    · refine .ite ?_ (.ite (.of takesFrom_privateName rfl) (.of takesFrom_word rfl))
      exact .of (.construct (.append (.append (takesFrom_mark rfl) (takesFrom_part rfl)) (takesFrom_mark rfl))) rfl

theorem takesFrom_modifier {inClass : Bool} {words : List String} :
    (modifier inClass words).TakesFrom P rank false 0 :=
  takesFrom_look_bind fun text => .ite
    (takesFrom_leaf fun c hc => by
      rw [hc.2]
      exact Lexeme.length_le_of_append (Lexeme.name_append text))
    takesFrom_pure

theorem takesFrom_modifiers {inClass : Bool} : (modifiers inClass).TakesFrom P rank false 0 :=
  .of (.append (.append (.append takesFrom_modifier takesFrom_modifier) (.whenNext (takesFrom_mark rfl)))
    takesFrom_modifier) rfl

theorem takesFrom_property (h : Nat.blt 0 rank = true) : property.TakesFrom P rank true 4 := by
  refine .bind takesFrom_extras rfl fun before => .peek peeks_cursor fun _ => ?_
  refine .bind (.append (takesFrom_call h) takesFrom_modifiers) rfl fun head => ?_
  refine .bind takesFrom_propertyName rfl fun name => ?_
  refine takesFrom_look_bind fun text => ?_
  split
  · exact .of (.map (.append takesFrom_parameters (takesFrom_part rfl)) _) rfl
  · refine .bind (.append (takesFrom_mark rfl) (takesFrom_part rfl)) rfl fun value => ?_
    exact .ite takesFrom_pure takesFrom_refuse
  · refine .ite ?_ takesFrom_refuse
    exact .of (.map (.append (takesFrom_mark rfl) (takesFrom_part rfl)) _) rfl
  · exact .ite takesFrom_pure takesFrom_refuse

theorem takes_properties {fresh : Bool} : (properties fresh).Takes (Goal.properties fresh).rank false 5 := by
  refine takesFrom_look_bind fun text => ?_
  cases text with
  | nil => exact takesFrom_refuse
  | cons c text =>
    refine .ite (.of takesFrom_leafOf rfl) (.ite (.of (.append takesFrom_leafOf_facing (takesFrom_call rfl)) rfl) ?_)
    -- a property can only start where one is expected
    cases fresh with
    | false => exact takesFrom_refuse
    | true => exact .of (.append (.ite (.of takesFrom_spread rfl) (takesFrom_property rfl)) (takesFrom_call rfl)) rfl

theorem takesFrom_dotted {left : Tree} : (dotted left).TakesFrom P rank false 1 := by
  refine takesFrom_lookBehind_bind fun text => .dite (fun hdot => ?_) fun _ => takesFrom_pure
  obtain ⟨rest, rfl⟩ := List.head?_eq_some_iff.mp (beq_iff_eq.mp hdot)
  refine .bind takesFrom_leafOf_facing rfl fun dot => ?_
  refine takesFrom_look_bind fun next => .dite (fun _ => takesFrom_refuse) fun hword => ?_
  refine .bind (takesFrom_leaf_facing (Lexeme.length_name_lt (Bool.eq_false_iff.mpr hword))) rfl fun name => ?_
  exact .of (takesFrom_call rfl) rfl

theorem takesFrom_decorator : decorator.TakesFrom P rank true 2 := by
  refine .construct ?_
  refine .bind (takesFrom_mark rfl) rfl fun sign => .bind takesFrom_extras rfl fun before => ?_
  refine .bind takesFrom_variableName rfl fun first => .bind takesFrom_one rfl fun first => ?_
  refine .bind takesFrom_dotted rfl fun name => .bind takesFrom_one rfl fun name => ?_
  exact takesFrom_lookBehind_bind fun _ => .ite (.of (.map takesFrom_arguments _) rfl) takesFrom_pure

theorem takes_decorators : decorators.Takes 0 false 3 :=
  .of (.whenNext (.append takesFrom_decorator (takesFrom_call rfl))) rfl

theorem takesFrom_fieldValue : fieldValue.TakesFrom P rank false 1 := by
  refine .peek peeks_omits fun omitted => .ite takesFrom_pure ?_
  exact takesFrom_lookBehind_bind fun _ =>
    .ite (.of (.append (takesFrom_mark rfl) (takesFrom_part rfl)) rfl) takesFrom_pure

theorem takesFrom_member (h : Nat.blt 0 rank = true) : member.TakesFrom P rank true 4 := by
  refine .bind takesFrom_extras rfl fun before => .peek peeks_cursor fun _ => ?_
  refine .bind (takesFrom_call h) rfl fun marks => ?_
  refine takesFrom_look_bind fun text => .dite (fun hstatic => ?_) fun _ => ?_
  · have hshorter := Lexeme.length_lt_of_word (Bool.and_eq_true_iff.mp hstatic).1
    exact .of (.map (.append (takesFrom_leaf_facing hshorter) (takesFrom_part rfl)) _) rfl
  · refine .bind takesFrom_modifiers rfl fun head => .bind takesFrom_propertyName rfl fun name => ?_
    refine .peek peeks_omits fun omitted => takesFrom_lookBehind_bind fun _ => .ite ?_ ?_
    · exact .of (.map (.append takesFrom_parameters (takesFrom_part rfl)) _) rfl
    · exact .bind takesFrom_fieldValue rfl fun value => .of (.map takesFrom_semicolon _) rfl

theorem takes_members : members.Takes 1 false 5 := by
  refine takesFrom_look_bind fun text => ?_
  cases text with
  | nil => exact takesFrom_refuse
  | cons c text =>
    refine .ite (.of takesFrom_leafOf rfl) (.ite (.of (.append takesFrom_leafOf_facing (takesFrom_call rfl)) rfl) ?_)
    exact .of (.append (takesFrom_member rfl) (takesFrom_call rfl)) rfl

theorem takesFrom_classParts : classParts.TakesFrom P rank true 2 :=
  .of (.append
    (.append (.append (takesFrom_keyword rfl) (.whenNext takesFrom_variableName))
      (.whenNext (.construct (.append (takesFrom_keyword rfl) (takesFrom_part rfl)))))
    (.construct (.append (takesFrom_mark rfl) (takesFrom_call rfl)))) rfl

/-! ## Imports and exports -/

theorem takesFrom_stringNode : stringNode.TakesFrom P rank true 0 := by
  refine .bind takesFrom_extras rfl fun before => .peek peeks_cursor fun _ => ?_
  split
  · exact .of (.map takesFrom_string _) rfl
  · exact .of (.map takesFrom_string _) rfl
  · exact takesFrom_refuse

theorem takesFrom_fromClause : fromClause.TakesFrom P rank true 0 :=
  .of (.append (takesFrom_keyword rfl) takesFrom_stringNode) rfl

theorem takesFrom_exportedName : exportedName.TakesFrom P rank true 0 :=
  takesFrom_look_bind fun _ => .ite takesFrom_stringNode (.ite (takesFrom_keyword rfl) takesFrom_variableName)

theorem takesFrom_specifier {kind : Kind} : (specifier kind).TakesFrom P rank true 0 :=
  .of (.construct (.append takesFrom_exportedName
    (.whenNext (.append (takesFrom_keyword rfl) takesFrom_exportedName)))) rfl

theorem takes_specifiers : specifiers.Takes 0 false 1 := by
  refine takesFrom_look_bind fun text => ?_
  split
  · exact .of takesFrom_leafOf rfl
  · exact .of (.append takesFrom_leafOf_facing (takesFrom_call rfl)) rfl
  · exact .of (.append takesFrom_specifier (takesFrom_call rfl)) rfl

theorem takesFrom_names {kind item : Kind} : (names kind item).TakesFrom P rank true 1 := by
  refine .construct ?_
  refine .bind (takesFrom_mark rfl) rfl fun opening => ?_
  exact .bind (takesFrom_call rfl) rfl fun found => .ite takesFrom_pure takesFrom_refuse

theorem takesFrom_importedNames : importedNames.TakesFrom P rank true 1 := by
  refine takesFrom_look_bind fun _ => .ite ?_ takesFrom_names
  exact .of (.construct (.append (.append (takesFrom_mark rfl) (takesFrom_keyword rfl)) takesFrom_variableName)) rfl

theorem takesFrom_importClause : importClause.TakesFrom P rank true 1 := by
  refine .construct (takesFrom_look_bind fun _ => .ite takesFrom_importedNames ?_)
  exact .of (.append takesFrom_variableName (.whenNext (.append (takesFrom_mark rfl) takesFrom_importedNames))) rfl

theorem takesFrom_importAttribute : importAttribute.TakesFrom P rank false 1 := by
  refine .peek peeks_omits fun omitted => .ite takesFrom_pure ?_
  refine takesFrom_lookBehind_bind fun _ => .ite ?_ takesFrom_pure
  exact .of (.construct (.append (takesFrom_keyword rfl)
    (.construct (.append (takesFrom_mark rfl) (takesFrom_call rfl))))) rfl

theorem takesFrom_importStatement : importStatement.TakesFrom P rank true 2 := by
  refine .construct ?_
  refine .bind (takesFrom_keyword rfl) rfl fun head => ?_
  -- the source of the names is followed by attributes and a semicolon
  have hrest {source : List Tree} : (do
      let rest ← importAttribute ++ semicolon false
      return head ++ source ++ rest : Rule (List Tree)).Takes Goal.ranks false 1 :=
    .of (.map (.append takesFrom_importAttribute takesFrom_semicolon) _) rfl
  refine takesFrom_look_bind fun _ => .ite ?_ ?_
  · exact .bind takesFrom_stringNode rfl fun _ => .of hrest rfl
  · exact .bind (.append takesFrom_importClause takesFrom_fromClause) rfl fun _ => .of hrest rfl

theorem takesFrom_exportDefault : exportDefault.TakesFrom P rank true 1 := by
  refine .bind (takesFrom_keyword rfl) rfl fun head => takesFrom_look_bind fun _ => .ite ?_ ?_
  · exact .of (.map (takesFrom_part rfl) _) rfl
  · exact .of (.map (.append (takesFrom_part rfl) takesFrom_semicolon) _) rfl

theorem takesFrom_namespaceExport :
    (construct .namespaceExport (mark ['*'] ++ keyword "as" ++ exportedName)).TakesFrom P rank true 0 :=
  .of (.construct (.append (.append (takesFrom_mark rfl) (takesFrom_keyword rfl)) takesFrom_exportedName)) rfl

theorem takesFrom_exported (h : Nat.blt 1 rank = true) : exported.TakesFrom P rank true 1 := by
  refine takesFrom_look_bind fun _ => .ite ?_ (.ite ?_ (.ite takesFrom_exportDefault (.ite ?_ takesFrom_refuse)))
  · exact .of (.append (.append (.ite takesFrom_namespaceExport (takesFrom_mark rfl)) takesFrom_fromClause)
      takesFrom_semicolon) rfl
  · refine .bind takesFrom_names rfl fun clause => ?_
    have hrest {source : List Tree} : (do
        let closing ← semicolon false
        return clause ++ source ++ closing : Rule (List Tree)).Takes Goal.ranks false 0 :=
      .map takesFrom_semicolon _
    refine .peek peeks_omits fun omitted => takesFrom_lookBehind_bind fun _ => ?_
    refine .ite (.of hrest.takesFrom rfl) (.ite ?_ (.of hrest.takesFrom rfl))
    exact .bind takesFrom_fromClause rfl fun _ => .of hrest rfl
  · exact .of (takesFrom_part h) rfl

theorem takesFrom_exportStatement {line : Nat} {marks : List Tree} :
    (exportStatement line marks).TakesFrom P rank true 1 :=
  .of (.map (.append (takesFrom_keyword rfl) (takesFrom_exported rfl)) _) rfl

/-! ## Expressions -/

/-- A name that has been looked at. -/
theorem takesFrom_nameOrArrow {site : Site} {word after text : List Char} (h : after.length < text.length) :
    (nameOrArrow site word after).TakesFrom (Facing text) rank true 1 := by
  refine .peek peeks_cursor fun _ => .bind (takesFrom_leaf_facing h) rfl fun name => ?_
  refine takesFrom_lookBehind_bind fun _ => .ite ?_ takesFrom_pure
  exact .of (.map (.append (takesFrom_mark rfl) (takesFrom_part rfl)) _) rfl

theorem takesFrom_asyncCallOrArrow {site : Site} {word after text : List Char} (h : after.length < text.length) :
    (asyncCallOrArrow site word after).TakesFrom (Facing text) rank true 2 := by
  refine .peek peeks_cursor fun _ => .bind (takesFrom_leaf_facing h) rfl fun name => ?_
  refine .bind takesFrom_arguments rfl fun found => takesFrom_lookBehind_bind fun _ => .ite ?_ takesFrom_pure
  split
  · split
    · exact .of (.map (.append (takesFrom_mark rfl) (takesFrom_part rfl)) _) rfl
    · exact takesFrom_refuse
  · exact takesFrom_refuse

theorem takesFrom_asyncOperand {site : Site} {word after text : List Char} (h : after.length < text.length) :
    (asyncOperand site word after).TakesFrom (Facing text) rank true 2 := by
  refine .ite (.of (takesFrom_nameOrArrow h) rfl) (.ite takesFrom_functionNode (.ite ?_ ?_))
  · exact .of (.constructFacing (.append (.append (.append (takesFrom_leaf_facing h) takesFrom_variableName)
      (takesFrom_mark rfl)) (takesFrom_part rfl))) rfl
  · exact .ite (takesFrom_asyncCallOrArrow h) (.of (takesFrom_nameOrArrow h) rfl)

theorem takesFrom_parenthesized {site : Site} : (parenthesized site).TakesFrom P rank true 2 := by
  refine .peek peeks_cursor fun _ => .bind (takesFrom_mark rfl) rfl fun opening => ?_
  refine .bind (takesFrom_call rfl) rfl fun found => ?_
  split
  · exact takesFrom_refuse
  · refine takesFrom_lookBehind_bind fun _ => .ite ?_ ?_
    · split
      · exact .of (.map (.append (takesFrom_mark rfl) (takesFrom_part rfl)) _) rfl
      · exact takesFrom_refuse
    · split
      · exact takesFrom_pure
      · exact takesFrom_refuse

theorem takesFrom_newOperand : newOperand.TakesFrom P rank true 2 := by
  refine .peek peeks_cursor fun _ => .bind (takesFrom_keyword rfl) rfl fun head => ?_
  refine takesFrom_look_bind fun _ => .ite ?_ ?_
  · exact .of (.map (.append (takesFrom_mark rfl) (takesFrom_keyword rfl)) _) rfl
  · refine .bind (takesFrom_part rfl) rfl fun made => takesFrom_lookBehind_bind fun _ => .ite ?_ ?_
    · exact .of (.map takesFrom_arguments _) rfl
    · exact .map takesFrom_pure _

theorem takesFrom_importOperand {word after text : List Char} (h : after.length < text.length) :
    (importOperand word after).TakesFrom (Facing text) rank true 0 := by
  unfold importOperand
  split
  · exact takesFrom_leaf_facing h
  · refine .ite ?_ (takesFrom_leaf_facing h)
    exact .of (.constructFacing (.append (.append (takesFrom_leaf_facing h) (takesFrom_mark rfl))
      (takesFrom_keyword rfl))) rfl
  · exact takesFrom_refuse

theorem takesFrom_privateOperand : privateOperand.TakesFrom P rank true 0 := by
  refine .bind takesFrom_privateName rfl fun name => takesFrom_lookBehind_bind fun _ => ?_
  split
  · exact .ite takesFrom_pure takesFrom_refuse
  · exact takesFrom_refuse

theorem takesFrom_wordOperand {site : Site} : (wordOperand site).TakesFrom P rank true 2 := by
  refine takesFrom_look_bind fun text => .dite (fun _ => takesFrom_refuse) fun hword => ?_
  have hshorter := Lexeme.length_name_lt (Bool.eq_false_iff.mpr hword)
  split
  · exact .of (takesFrom_leaf_facing hshorter) rfl
  · refine .ite takesFrom_functionNode (.ite ?_ (.ite takesFrom_newOperand ?_))
    · exact .of (.construct takesFrom_classParts) rfl
    refine .ite (.of (takesFrom_importOperand hshorter) rfl) (.ite (takesFrom_asyncOperand hshorter) ?_)
    exact .ite takesFrom_refuse (.of (takesFrom_nameOrArrow hshorter) rfl)

theorem takesFrom_primary {site : Site} (h : Nat.blt 0 rank = true) : (primary site).TakesFrom P rank true 3 := by
  refine takesFrom_look_bind fun text => ?_
  cases text with
  | nil => exact takesFrom_refuse
  | cons c text =>
    refine .ite (.of takesFrom_parenthesized rfl) (.ite ?_ (.ite ?_ (.ite (.of takesFrom_string rfl) ?_)))
    · exact .of (.construct (.append (takesFrom_mark rfl) (takesFrom_call rfl))) rfl
    · exact .of (.construct (.append (takesFrom_mark rfl) (takesFrom_call rfl))) rfl
    refine .ite (.of takesFrom_template rfl) (.dite (fun hnumber => .of (takesFrom_number hnumber) rfl) fun _ => ?_)
    -- an element starts with its bracket, and a class may start with decorators
    have helement : (call .element).TakesFrom (Facing (c :: text)) rank true 1 := takesFrom_call h
    have hdecorators : (call .decorators).Takes rank false 1 := takesFrom_call h
    have hclass : (construct .classExpression (call .decorators ++ classParts)).Takes rank true 3 :=
      .construct (.append hdecorators takesFrom_classParts)
    refine .ite (.of takesFrom_regex rfl) (.ite (.of helement rfl) (.ite hclass.takesFrom ?_))
    exact .ite (.of takesFrom_privateOperand rfl) (.of takesFrom_wordOperand rfl)

/-! ## Suffixes -/

theorem takesFrom_memberName : memberName.TakesFrom P rank true 0 :=
  takesFrom_look_bind fun _ => .ite takesFrom_privateName takesFrom_word

theorem takesFrom_index : index.TakesFrom P rank true 1 :=
  .of (.append (.append (takesFrom_mark rfl) (takesFrom_part rfl)) (takesFrom_mark rfl)) rfl

theorem takesFrom_suffixes {site : Site} {calls : Bool} {left : Tree} :
    (suffixes site calls left).TakesFrom P rank false 2 := by
  -- every suffix has a character, so that the suffixes behind it may be asked for
  have hagain {tree : Tree} : (call (.suffixes site calls tree)).Takes Goal.ranks false 1 := takesFrom_call rfl
  refine .peek peeks_ends fun ended => .ite takesFrom_pure (takesFrom_lookBehind_bind fun text => ?_)
  cases text with
  | nil => exact takesFrom_pure
  | cons c text =>
    refine .ite ?_ (.ite ?_ (.ite ?_ (.ite ?_ (.ite ?_ (.ite ?_ takesFrom_pure)))))
    · exact .bind takesFrom_leafOf_facing rfl fun _ => .bind takesFrom_memberName rfl fun _ => .of hagain rfl
    · refine .bind takesFrom_leafOf_facing rfl fun _ => takesFrom_look_bind fun next => ?_
      split
      · exact .bind takesFrom_arguments rfl fun _ => .of hagain rfl
      · exact .bind takesFrom_index rfl fun _ => .of hagain rfl
      · exact .bind takesFrom_memberName rfl fun _ => .of hagain rfl
    · exact .bind takesFrom_index rfl fun _ => .of hagain rfl
    · exact .bind takesFrom_arguments rfl fun _ => .of hagain rfl
    · exact takesFrom_extras_bind fun _ => .bind takesFrom_template rfl fun _ => .of hagain rfl
    · exact .bind takesFrom_leafOf_facing rfl fun _ => .of hagain rfl

theorem takesFrom_target {site : Site} (h : Nat.blt 0 rank = true) : (target site).TakesFrom P rank true 5 :=
  .bind (takesFrom_primary h) rfl fun _ => .bind takesFrom_one rfl fun _ => .of takesFrom_suffixes rfl

theorem takesFrom_constructed (h : Nat.blt 0 rank = true) : constructed.TakesFrom P rank true 5 :=
  .bind (takesFrom_primary h) rfl fun _ => .bind takesFrom_one rfl fun _ => .of takesFrom_suffixes rfl

/-! ## Operators -/

theorem takesFrom_yieldOperand {site : Site} : (yieldOperand site).TakesFrom P rank true 1 := by
  refine .construct ?_
  refine .bind (takesFrom_keyword rfl) rfl fun head => .peek peeks_ends fun ended => .ite takesFrom_pure ?_
  refine takesFrom_lookBehind_bind fun _ => .ite ?_ (.ite ?_ takesFrom_pure)
  · exact .of (.map (.append (takesFrom_mark rfl) (takesFrom_part rfl)) _) rfl
  · exact .of (.map (takesFrom_part rfl) _) rfl

theorem takesFrom_assignment {site : Site} (h : Nat.blt 0 rank = true) :
    (assignment site).TakesFrom P rank true 6 := by
  refine .bind (takesFrom_target h) rfl fun _ => .bind takesFrom_one rfl fun left => ?_
  refine .peek peeks_ends fun ended => .ite takesFrom_pure (takesFrom_lookBehind_bind fun text => ?_)
  split
  · exact takesFrom_pure
  · next op rest hop =>
    have hoperator : (leaf .token op rest).TakesFrom (Facing text) Goal.ranks true 0 :=
      takesFrom_leaf_facing (Lexeme.length_lt_of_operator? hop)
    refine .ite ?_ (.ite ?_ takesFrom_pure)
    · split
      · exact takesFrom_pure
      · exact .of (.map (.append hoperator (takesFrom_part rfl)) _) rfl
    · exact .of (.map (.append hoperator (takesFrom_part rfl)) _) rfl

/-- An operand is a template, a regular expression, a word with a meaning of its own, or what else an assignment
starts with. -/
theorem takesFrom_operand {site : Site} (h : Nat.blt 0 rank = true) : (operand site).TakesFrom P rank true 6 := by
  refine takesFrom_look_bind fun text => ?_
  split
  · exact .of (.constructFacing (.append takesFrom_leafOf_facing (takesFrom_part rfl))) rfl
  · exact .of (.constructFacing (.append takesFrom_leafOf_facing (takesFrom_part rfl))) rfl
  · next c text _ _ =>
    refine .ite (.of (.constructFacing (.append takesFrom_leafOf_facing (takesFrom_part rfl))) rfl) ?_
    refine .dite (fun hword => ?_) fun _ => .dite (fun hawait => ?_) fun _ =>
      .ite (.of takesFrom_yieldOperand rfl) (takesFrom_assignment h)
    -- each of these words is not empty
    · have hshorter : (Lexeme.name (c :: text)).2.length < (c :: text).length := by
        rcases Bool.or_eq_true_iff.mp hword with hword | hword
        · rcases Bool.or_eq_true_iff.mp hword with hword | hword
          · exact Lexeme.length_lt_of_word hword
          · exact Lexeme.length_lt_of_word hword
        · exact Lexeme.length_lt_of_word hword
      exact .of (.constructFacing (.append (takesFrom_leaf_facing hshorter) (takesFrom_part rfl))) rfl
    · have hshorter : (Lexeme.name (c :: text)).2.length < (c :: text).length := Lexeme.length_lt_of_word hawait
      exact .of (.constructFacing (.append (takesFrom_leaf_facing hshorter) (takesFrom_part rfl))) rfl
  · exact takesFrom_refuse

theorem takesFrom_operators {site : Site} {level : Nat} {left : Tree} :
    (operators site level left).TakesFrom P rank false 2 := by
  refine .peek peeks_ends fun ended => .ite takesFrom_pure (takesFrom_lookBehind_bind fun text => ?_)
  split
  · exact takesFrom_pure
  · next op rest hop =>
    split
    · exact takesFrom_pure
    · refine .ite takesFrom_pure ?_
      refine .bind (.append (takesFrom_leaf_facing (Lexeme.length_lt_of_operator? hop))
        (takesFrom_part rfl)) rfl fun right => ?_
      exact .of (takesFrom_call rfl) rfl

theorem takesFrom_binary {site : Site} {level : Nat} (h : Nat.blt 0 rank = true) :
    (binary site level).TakesFrom P rank true 8 :=
  .bind (takesFrom_operand h) rfl fun _ => .bind takesFrom_one rfl fun _ => .of takesFrom_operators rfl

theorem takesFrom_expression {site : Site} (h : Nat.blt 0 rank = true) :
    (expression site).TakesFrom P rank true 10 := by
  refine .bind (takesFrom_binary h) rfl fun _ => .bind takesFrom_one rfl fun test => ?_
  refine .peek peeks_ends fun ended => .ite takesFrom_pure (takesFrom_lookBehind_bind fun text => ?_)
  refine .ite ?_ takesFrom_pure
  exact .of (.map (.append (.append (.append takesFrom_leafOf (takesFrom_part rfl)) (takesFrom_mark rfl))
    (takesFrom_part rfl)) _) rfl

theorem takesFrom_moreExpressions {site : Site} : (moreExpressions site).TakesFrom P rank false 2 := by
  refine .peek peeks_ends fun ended => .ite takesFrom_pure (takesFrom_lookBehind_bind fun text => ?_)
  refine .dite (fun hcomma => ?_) fun _ => takesFrom_pure
  obtain ⟨rest, rfl⟩ := List.head?_eq_some_iff.mp (beq_iff_eq.mp hcomma)
  exact .of (.append (.append takesFrom_leafOf_facing (takesFrom_part rfl)) (takesFrom_call rfl)) rfl

theorem takesFrom_expressions {site : Site} (h : Nat.blt 0 rank = true) :
    (expressions site).TakesFrom P rank true 12 := by
  refine .bind (takesFrom_expression h) rfl fun _ => .bind takesFrom_one rfl fun first => ?_
  exact .bind takesFrom_moreExpressions rfl fun more => .ite takesFrom_pure takesFrom_pure

/-! ## Blocks and declarations -/

theorem takesFrom_block : block.TakesFrom P rank true 1 := by
  refine .bind (.construct (.append (.append (takesFrom_mark rfl) (takesFrom_call rfl))
    (takesFrom_mark rfl))) rfl fun found => ?_
  exact .of (.map takesFrom_closeBlock _) rfl

theorem takesFrom_condition : condition.TakesFrom P rank true 1 :=
  .of (.construct (.append (.append (takesFrom_mark rfl) (takesFrom_part rfl)) (takesFrom_mark rfl))) rfl

theorem takesFrom_binding (h : Nat.blt 0 rank = true) : binding.TakesFrom P rank true 3 := by
  refine takesFrom_look_bind fun text => .ite ?_ (.of takesFrom_variableName rfl)
  refine .bind (takesFrom_primary h) rfl fun _ => .bind takesFrom_one rfl fun literal => ?_
  split
  · exact takesFrom_pure
  · exact takesFrom_refuse

theorem takesFrom_initializer {site : Site} : (initializer site).TakesFrom P rank false 1 := by
  refine .peek peeks_omits fun _ => .ite takesFrom_pure (takesFrom_lookBehind_bind fun _ => ?_)
  split
  · exact .ite (.of (.append (takesFrom_mark rfl) (takesFrom_part rfl)) rfl) takesFrom_pure
  · exact takesFrom_pure

theorem takes_declarators : declarators.Takes 2 false 3 := by
  refine .bind takesFrom_extras rfl fun before => .peek peeks_cursor fun _ => ?_
  refine .bind (takesFrom_call rfl) rfl fun name => .bind takesFrom_initializer rfl fun value => ?_
  refine .peek peeks_omits fun omitted => .ite takesFrom_pure (takesFrom_lookBehind_bind fun text => ?_)
  refine .dite (fun hcomma => ?_) fun _ => takesFrom_pure
  obtain ⟨rest, rfl⟩ := List.head?_eq_some_iff.mp (beq_iff_eq.mp hcomma)
  exact .of (.map (.append takesFrom_leafOf_facing (takesFrom_call rfl)) _) rfl

theorem takesFrom_variableList {kind : Kind} {word : String} (h : word.toList.isEmpty = false) :
    (variableList kind word).TakesFrom P rank true 1 := by
  refine .construct (.bind (takesFrom_keyword h) rfl fun head => ?_)
  exact .bind (takesFrom_call rfl) rfl fun found => .of (.map takesFrom_semicolon _) rfl

theorem takesFrom_classStatement {line : Nat} {marks : List Tree} :
    (classStatement line marks).TakesFrom P rank true 2 :=
  .bind takesFrom_classParts rfl fun _ => .of (.map takesFrom_closeBlock _) rfl

theorem takesFrom_declaration (h : Nat.blt 0 rank = true) : declaration.TakesFrom P rank true 3 := by
  refine takesFrom_look_bind fun text => ?_
  refine .ite (.of (takesFrom_variableList rfl) rfl) (.ite (.of (takesFrom_variableList rfl) rfl) ?_)
  refine .ite (.of (takesFrom_variableList rfl) rfl) (.ite ?_ (.ite (.of takesFrom_functionNode rfl) takesFrom_refuse))
  refine .peek peeks_cursor fun _ => .bind (takesFrom_call h) rfl fun marks => ?_
  exact .of takesFrom_classStatement rfl

/-! ## Loops and branches -/

theorem takesFrom_loopTarget (h : Nat.blt 1 rank = true) : loopTarget.TakesFrom P rank true 2 := by
  refine takesFrom_look_bind fun text => .ite ?_ (.ite ?_ (.ite ?_ ?_))
  · exact .of (.append (.append (takesFrom_keyword rfl) (takesFrom_part rfl)) takesFrom_initializer) rfl
  · exact .of (.append (takesFrom_keyword rfl) (takesFrom_part rfl)) rfl
  · exact .of (.append (takesFrom_keyword rfl) (takesFrom_part rfl)) rfl
  · refine .bind takesFrom_extras rfl fun before => .bind (takesFrom_call h) rfl fun found => ?_
    refine .bind takesFrom_one rfl fun left => ?_
    split
    · exact takesFrom_pure
    · exact takesFrom_refuse

theorem takesFrom_loopWord : loopWord.TakesFrom P rank true 0 := by
  refine takesFrom_lookBehind_bind fun text => .dite (fun hword => ?_) fun _ => takesFrom_refuse
  refine takesFrom_leaf_facing ?_
  rcases Bool.or_eq_true_iff.mp hword with hword | hword
  · exact Lexeme.length_lt_of_word hword
  · exact Lexeme.length_lt_of_word hword

theorem takesFrom_forIn : forIn.TakesFrom P rank true 3 :=
  .of (.construct (.append (.append (.append (.append (takesFrom_mark rfl) (takesFrom_loopTarget rfl))
    takesFrom_loopWord) (takesFrom_part rfl)) (takesFrom_mark rfl))) rfl

theorem takesFrom_loopPart (h : Nat.blt 1 rank = true) : loopPart.TakesFrom P rank false 1 :=
  takesFrom_look_bind fun _ => .ite (.of takesFrom_leafOf rfl)
    (.of (.append (takesFrom_part h) (takesFrom_mark rfl)) rfl)

theorem takesFrom_loopStart (h : Nat.blt 1 rank = true) : loopStart.TakesFrom P rank false 1 :=
  takesFrom_look_bind fun _ => .ite (.of (takesFrom_part h) rfl) (takesFrom_loopPart h)

theorem takesFrom_forCounter : forCounter.TakesFrom P rank true 3 :=
  .of (.construct (.append (.append (.append (.append (takesFrom_mark rfl) (takesFrom_loopStart rfl))
    (takesFrom_loopPart rfl)) (.whenNext (takesFrom_part rfl))) (takesFrom_mark rfl))) rfl

theorem takesFrom_forStatement : forStatement.TakesFrom P rank true 2 := by
  refine .peek peeks_cursor fun _ => ?_
  refine .bind (.append (takesFrom_keyword rfl) (.whenNext (takesFrom_keyword rfl))) rfl fun start => ?_
  refine .bind takesFrom_extras rfl fun before => .bind (takesFrom_choose rfl rfl) rfl fun found => ?_
  exact .bind takesFrom_one rfl fun head => .of (.map (takesFrom_part rfl) _) rfl

theorem takesFrom_ifStatement : ifStatement.TakesFrom P rank true 3 :=
  .of (.construct (.append (.append (.append (takesFrom_keyword rfl) (takesFrom_part rfl)) (takesFrom_part rfl))
    (.whenNext (.construct (.append (takesFrom_keyword rfl) (takesFrom_part rfl)))))) rfl

/-- A loop or a block that starts with a word and a condition. -/
theorem takesFrom_whileStatement {kind : Kind} {word : String} (h : word.toList.isEmpty = false) :
    (construct kind (keyword word ++ part .condition ++ part .statement)).TakesFrom P rank true 2 :=
  .of (.construct (.append (.append (takesFrom_keyword h) (takesFrom_part rfl)) (takesFrom_part rfl))) rfl

theorem takesFrom_doStatement : doStatement.TakesFrom P rank true 2 := by
  refine .construct ?_
  refine .bind (.append (.append (.append (takesFrom_keyword rfl) (takesFrom_part rfl))
    (takesFrom_keyword rfl)) (takesFrom_part rfl)) rfl fun found => ?_
  refine .peek peeks_omits fun omitted => .ite (.of (.map takesFrom_closeBlock _) rfl) ?_
  exact takesFrom_lookBehind_bind fun _ => .ite (.of (.map takesFrom_leafOf _) rfl) takesFrom_pure

theorem takesFrom_switchCase : switchCase.TakesFrom P rank true 2 := by
  refine takesFrom_look_bind fun _ => .ite ?_ ?_
  · exact .of (.construct (.append (.append (.append (takesFrom_keyword rfl) (takesFrom_part rfl))
      (takesFrom_mark rfl)) (takesFrom_call rfl))) rfl
  · exact .of (.construct (.append (.append (takesFrom_keyword rfl) (takesFrom_mark rfl)) (takesFrom_call rfl))) rfl

theorem takes_cases : cases.Takes 0 false 3 := by
  refine takesFrom_look_bind fun _ => .ite (.of takesFrom_leafOf rfl) ?_
  exact .of (.append takesFrom_switchCase (takesFrom_call rfl)) rfl

theorem takesFrom_switchStatement : switchStatement.TakesFrom P rank true 2 :=
  .of (.construct (.append (.append (takesFrom_keyword rfl) (takesFrom_part rfl))
    (.construct (.append (takesFrom_mark rfl) (takesFrom_call rfl))))) rfl

theorem takesFrom_catchClause : catchClause.TakesFrom P rank true 2 :=
  .of (.construct (.append (.append (takesFrom_keyword rfl)
    (.whenNext (.append (.append (takesFrom_mark rfl) (takesFrom_part rfl)) (takesFrom_mark rfl))))
    (takesFrom_part rfl))) rfl

theorem takesFrom_tryStatement : tryStatement.TakesFrom P rank true 4 :=
  .of (.construct (.append (.append (.append (takesFrom_keyword rfl) (takesFrom_part rfl))
    (.whenNext takesFrom_catchClause))
    (.whenNext (.construct (.append (takesFrom_keyword rfl) (takesFrom_part rfl)))))) rfl

/-! ## Jumps -/

/-- Behind the word of a jump, a semicolon is left out, or written, or it stands behind an operand. -/
theorem takesFrom_jumpEnd {head : List Tree} {operand : Rule (List Tree)}
    (hoperand : operand.Takes Goal.ranks true 1) :
    (do
      if ← omits false then return head ++ (← semicolon false)
      else if nextIs ';' (← lookBehind) then return head ++ (← leafOf .token 1)
      else return head ++ (← operand) : Rule (List Tree)).Takes Goal.ranks false 1 := by
  refine .peek peeks_omits fun omitted => .ite (.of (.map takesFrom_semicolon _) rfl) ?_
  refine takesFrom_lookBehind_bind fun _ => .ite (.of (.map takesFrom_leafOf _) rfl) ?_
  exact .of (hoperand.takesFrom.map _) rfl

theorem takesFrom_jump {kind : Kind} {word : String} (h : word.toList.isEmpty = false) :
    (jump kind word).TakesFrom P rank true 1 := by
  refine .construct ?_
  refine .bind (takesFrom_keyword h) rfl fun head => ?_
  exact takesFrom_jumpEnd (.of (.append takesFrom_variableName takesFrom_semicolon) rfl)

theorem takesFrom_returnStatement : returnStatement.TakesFrom P rank true 1 := by
  refine .construct ?_
  refine .bind (takesFrom_keyword rfl) rfl fun head => ?_
  exact takesFrom_jumpEnd (.of (.append (takesFrom_part rfl) takesFrom_semicolon) rfl)

/-! ## Statements -/

theorem takesFrom_expressionStatement (h : Nat.blt 1 rank = true) :
    expressionStatement.TakesFrom P rank true 1 := by
  refine .construct ?_
  exact .of (.append (takesFrom_part h) takesFrom_semicolon) rfl

theorem takesFrom_labelled {word after text : List Char} (h : after.length < text.length) :
    (labelled word after).TakesFrom (Facing text) rank true 1 :=
  .of (.constructFacing (.append (.append (takesFrom_leaf_facing h) (takesFrom_mark rfl)) (takesFrom_part rfl))) rfl

theorem takesFrom_wordStatement {word after text : List Char} (h : after.length < text.length) :
    (wordStatement word after text).TakesFrom (Facing text) 3 true 4 := by
  have hdeclaration : (call .declaration).TakesFrom (Facing text) 3 true 4 := .of (takesFrom_call rfl) rfl
  refine .ite hdeclaration (.ite (.of takesFrom_ifStatement rfl) (.ite (.of takesFrom_forStatement rfl) ?_))
  refine .ite (.of (takesFrom_whileStatement rfl) rfl) (.ite (.of takesFrom_doStatement rfl) ?_)
  refine .ite (.of takesFrom_switchStatement rfl) (.ite (.of takesFrom_tryStatement rfl) ?_)
  refine .ite (.of (takesFrom_whileStatement rfl) rfl) (.ite (.of takesFrom_returnStatement rfl) (.ite ?_ ?_))
  · exact .of (.construct (.append (.append (takesFrom_keyword rfl) (takesFrom_part rfl)) takesFrom_semicolon)) rfl
  refine .ite (.of (takesFrom_jump rfl) rfl) (.ite (.of (takesFrom_jump rfl) rfl) (.ite ?_ ?_))
  · exact .of (.construct (.append (takesFrom_keyword rfl) takesFrom_semicolon)) rfl
  refine .ite (.of takesFrom_importStatement rfl) (.ite ?_ (.ite hdeclaration (.ite ?_ ?_)))
  · exact .peek peeks_cursor fun _ => .of takesFrom_exportStatement rfl
  · exact .of (takesFrom_labelled h) rfl
  · exact .of (takesFrom_expressionStatement rfl) rfl

theorem takesFrom_decorated (h : Nat.blt 0 rank = true) : decorated.TakesFrom P rank true 3 := by
  refine .peek peeks_cursor fun _ => .bind (takesFrom_call h) rfl fun marks => ?_
  refine takesFrom_look_bind fun _ => .ite ?_ (.of takesFrom_classStatement rfl)
  exact .bind takesFrom_extras rfl fun _ => .of takesFrom_exportStatement rfl

theorem takes_statement : statement.Takes 3 true 4 := by
  refine takesFrom_look_bind fun text => ?_
  cases text with
  | nil => exact takesFrom_refuse
  | cons c text =>
    refine .ite (.ite ?_ ?_) (.ite (.of takesFrom_leafOf_facing rfl) (.ite (.of (takesFrom_decorated rfl) rfl) ?_))
    · exact .of (takesFrom_choose rfl rfl) rfl
    · exact .of (takesFrom_choose rfl rfl) rfl
    · refine .dite (fun _ => .of (takesFrom_expressionStatement rfl) rfl) fun hword => ?_
      have hshorter : (Lexeme.name (c :: text)).2.length < (c :: text).length :=
        Lexeme.length_name_lt (Bool.eq_false_iff.mpr hword)
      exact takesFrom_wordStatement hshorter

theorem takes_statements {inCase : Bool} : (statements inCase).Takes 4 false 2 :=
  takesFrom_look_bind fun _ => .ite takesFrom_pure (.ite takesFrom_pure
    (.of (.append (takesFrom_part rfl) (takesFrom_call rfl)) rfl))

theorem takes_program : program.Takes 4 false 2 := by
  refine takesFrom_look_bind fun text => .ite (.of takesFrom_extras rfl) ?_
  have hanchor : anchorHere.TakesFrom (Facing text) 4 false 0 := fun c _ => Nat.le_refl c.rest.length
  refine .bind hanchor rfl fun _ => ?_
  exact .of (.append (takesFrom_part rfl) (takesFrom_call rfl)) rfl

/-! ## Elements -/

theorem takesFrom_elementExpression : elementExpression.TakesFrom P rank true 1 := by
  refine .construct ?_
  refine .bind (takesFrom_mark rfl) rfl fun opening => takesFrom_look_bind fun _ => ?_
  -- whatever stands in the braces, they are closed behind it
  have hclosed {inside : List Tree} : (do
      let closing ← mark ['}']
      return opening ++ inside ++ closing : Rule (List Tree)).Takes Goal.ranks true 0 :=
    (takesFrom_mark rfl).map _
  refine .ite ?_ (.ite ?_ ?_)
  · exact takesFrom_pure_bind (.of hclosed.takesFrom rfl)
  · exact .bind takesFrom_spread rfl fun _ => .of hclosed rfl
  · exact .bind (takesFrom_part rfl) rfl fun _ => .of hclosed rfl

theorem takesFrom_tagWord {kind : Kind} : (tagWord kind).TakesFrom P rank true 0 :=
  takesFrom_look_bind fun text => .dite (fun _ => takesFrom_refuse) fun hword =>
    takesFrom_leaf_facing (Lexeme.length_lt_of_append (Lexeme.tagName_append text) (Bool.eq_false_iff.mpr hword))

theorem takesFrom_namespaced {first : Tree} : (namespaced first).TakesFrom P rank true 0 :=
  .of (.map (.append (takesFrom_mark rfl) takesFrom_tagWord) _) rfl

theorem takesFrom_elementName : elementName.TakesFrom P rank true 1 := by
  refine .bind takesFrom_extras rfl fun before => .bind takesFrom_tagWord rfl fun _ => ?_
  refine .bind takesFrom_one rfl fun first => ?_
  refine .ite takesFrom_refuse (takesFrom_lookBehind_bind fun _ => ?_)
  split
  · exact .of (.map takesFrom_namespaced _) rfl
  · exact .of (.map takesFrom_dotted _) rfl
  · exact takesFrom_pure

theorem takesFrom_attributeValue (h : Nat.blt 0 rank = true) : attributeValue.TakesFrom P rank true 1 := by
  refine takesFrom_look_bind fun text => ?_
  split
  · exact takesFrom_elementExpression
  · exact .of (takesFrom_part h) rfl
  · refine .ite ?_ takesFrom_refuse
    refine .bind takesFrom_extras rfl fun before => ?_
    have hvalue : (scanned .stringLiteral Lexeme.attributeString).Takes rank true 0 :=
      takesFrom_scanned fun _ _ _ h => Lexeme.length_lt_of_attributeString h
    exact .of (hvalue.map _) rfl
  · exact takesFrom_refuse

theorem takesFrom_namedAttribute : namedAttribute.TakesFrom P rank true 1 := by
  refine .construct ?_
  refine .bind takesFrom_tagWord rfl fun _ => .bind takesFrom_one rfl fun first => ?_
  have hvalue {name : List Tree} : (do
      let value ← whenNext (nextIs '=') (mark ['='] ++ attributeValue)
      return name ++ value : Rule (List Tree)).Takes Goal.ranks false 1 :=
    .of (.map (.whenNext (.append (takesFrom_mark rfl) (takesFrom_attributeValue rfl))) _) rfl
  refine takesFrom_look_bind fun _ => .ite ?_ ?_
  · exact .bind takesFrom_namespaced rfl fun _ => .of hvalue rfl
  · exact takesFrom_pure_bind (.of hvalue.takesFrom rfl)

theorem takes_attributes : attributes.Takes 0 false 2 := by
  refine takesFrom_look_bind fun text => ?_
  split
  · exact .of (.append takesFrom_elementExpression (takesFrom_call rfl)) rfl
  · exact .ite (.of (.append takesFrom_namedAttribute (takesFrom_call rfl)) rfl) takesFrom_pure
  · exact takesFrom_pure

theorem takesFrom_closingTag : closingTag.TakesFrom P rank true 1 :=
  .of (.construct (.append (.append (takesFrom_mark rfl) (.whenNext takesFrom_elementName)) (takesFrom_mark rfl))) rfl

/-- Behind the text that is passed, the cursor stands at what follows it. -/
theorem takesFrom_pass_bind {here : Cursor} {taken rest : List Char} {moved : Bool} {calls : Nat}
    {f : Unit → Rule (List Tree)} (hrest : rest.length ≤ here.rest.length)
    (hf : (f ()).TakesFrom (·.rest = rest) rank moved calls) :
    (pass taken rest >>= f).TakesFrom (· = here) rank moved calls := by
  intro c hc
  let d : Cursor := { c with rest, line := c.line + lineFeeds taken }
  have hbehind : c.Behind false d := by
    rw [← hc] at hrest
    exact hrest
  exact (hf d rfl).mono (hbehind.weight_le rank) (Nat.le_refl _) fun _ he => hbehind.trans he

/-- The children of an element: text, then an element, an expression in braces, a comment or a character
reference, and again from there. -/
theorem takes_elementChildren : elementChildren.Takes 1 false 2 := by
  refine takesFrom_here_bind fun here _ => ?_
  have happend := Lexeme.elementText_append here.rest
  have hcounts := @Lexeme.isEmpty_of_elementText here.rest
  -- text that counts has a character; text that does not is passed, and something must follow it
  generalize Lexeme.elementText here.rest = found at *
  obtain ⟨counts, text, rest⟩ := found
  refine .dite (fun h => ?_) fun _ => takesFrom_pass_bind (Lexeme.length_le_of_append happend) ?_
  · have hshorter := Lexeme.length_lt_of_append happend (hcounts h)
    exact .of (.append (takesFrom_leaf_here hshorter) (takesFrom_call rfl)) rfl
  split
  · exact takesFrom_pure
  · next more _ =>
    refine .ite ?_ (.of (.append (takesFrom_call rfl) (takesFrom_call rfl)) rfl)
    have hcomment : (leaf .htmlComment (('<' :: more).takeWhile (!endsLine ·))
        (('<' :: more).drop (('<' :: more).takeWhile (!endsLine ·)).length)).TakesFrom
        (·.rest = '<' :: more) 1 true 0 := by
      refine takesFrom_leaf fun c hc => ?_
      -- the bracket is part of the comment
      rw [hc, List.takeWhile_cons, if_pos (by decide), List.length_cons, List.drop_succ_cons, List.length_cons]
      exact Nat.succ_le_succ (List.drop_sublist _ more).length_le
    exact .of (.append hcomment (takesFrom_call rfl)) rfl
  · exact .of (.append takesFrom_elementExpression (takesFrom_call rfl)) rfl
  · next more =>
    split
    · have hreference {length : Nat} : (leafOf .htmlCharacterReference (length + 1)).TakesFrom
          (·.rest = '&' :: more) 1 true 0 :=
        takesFrom_leafOf_of_ne (Nat.succ_pos _) fun _ hc => by simp [hc]
      exact .of (.append hreference (takesFrom_call rfl)) rfl
    · exact takesFrom_refuse
  · exact takesFrom_refuse

theorem takes_element : element.Takes 0 true 4 := by
  refine .peek peeks_cursor fun _ => .bind takesFrom_leafOf rfl fun opening => ?_
  refine .bind (.whenNext (.append takesFrom_elementName (takesFrom_call rfl))) rfl fun head => ?_
  refine takesFrom_look_bind fun _ => .ite (.of (.map (takesFrom_mark rfl) _) rfl) ?_
  refine .bind (takesFrom_mark rfl) rfl fun closing => ?_
  exact .of (.map (.append (takesFrom_call rfl) takesFrom_closingTag) _) rfl

/-! ## All rules -/

/-- No rule asks for more goals than this, and none for a goal of its own rank before a character is read. -/
theorem takes_rules (goal : Goal) : (rules goal).Takes goal.rank goal.advances 12 := by
  cases goal with
  | program => exact .of takes_program rfl
  | statements inCase => exact .of takes_statements rfl
  | statement => exact .of takes_statement rfl
  | expressionStatement => exact .of (takesFrom_expressionStatement rfl) rfl
  | block => exact .of takesFrom_block rfl
  | declaration => exact .of (takesFrom_declaration rfl) rfl
  | declarators => exact .of takes_declarators rfl
  | binding => exact .of (takesFrom_binding rfl) rfl
  | condition => exact .of takesFrom_condition rfl
  | forIn => exact .of takesFrom_forIn rfl
  | forCounter => exact .of takesFrom_forCounter rfl
  | cases => exact .of takes_cases rfl
  | members => exact .of takes_members rfl
  | specifiers => exact .of takes_specifiers rfl
  | decorators => exact .of takes_decorators rfl
  | expressions site => exact takesFrom_expressions rfl
  | moreExpressions site => exact .of takesFrom_moreExpressions rfl
  | expression site => exact .of (takesFrom_expression rfl) rfl
  | binary site level => exact .of (takesFrom_binary rfl) rfl
  | operators site level left => exact .of takesFrom_operators rfl
  | operand site => exact .of (takesFrom_operand rfl) rfl
  | target site => exact .of (takesFrom_target rfl) rfl
  | constructor => exact .of (takesFrom_constructed rfl) rfl
  | suffixes site calls left => exact .of takesFrom_suffixes rfl
  | arrowBody site => exact .of takes_arrowBody rfl
  | elements close fresh => exact .of takes_elements rfl
  | properties fresh => exact .of takes_properties rfl
  | templateParts line => exact .of takes_templateParts rfl
  | element => exact .of takes_element rfl
  | attributes => exact .of takes_attributes rfl
  | elementChildren => exact .of takes_elementChildren rfl
  | dotted left => exact .of takesFrom_dotted rfl

theorem takesFrom_interpreterLine : interpreterLine.TakesFrom P rank false 0 :=
  takesFrom_look_bind fun text => .ite
    (takesFrom_leaf fun c hc => by
      rw [hc.2]
      exact (List.drop_sublist _ text).length_le)
    takesFrom_pure

theorem takes_script : script.Takes Goal.ranks false 1 :=
  .of (.append takesFrom_interpreterLine (takesFrom_call rfl)) rfl

end Grammar

/-! ## Scripts -/

/-- A unit of weight takes no more than six rounds, and there is a weight of five for every character. -/
theorem moves_lt_rounds (length : Nat) :
    1 * (2 * (5 * 12) ^ (Goal.ranks * length + Goal.ranks) + 3) + 1 < 2 ^ rounds length := by
  have hranks : Goal.ranks * length + Goal.ranks = 5 * (length + 1) := rfl
  rw [hranks, rounds]
  generalize hn : length + 1 = n
  have hbase : (5 * 12) ^ (5 * n) ≤ 2 ^ (30 * n) :=
    calc (5 * 12) ^ (5 * n) ≤ 64 ^ (5 * n) := Nat.pow_le_pow_left (by decide) _
      _ = 2 ^ (30 * n) := by
        rw [show 64 = 2 ^ 6 by rfl, ← Nat.pow_mul]
        congr 1
        omega
  have hdouble : 2 ^ (30 * n + 2) ≤ 2 ^ (64 * n) := Nat.pow_le_pow_right (by decide) (by omega)
  have hlarge : 2 ^ 3 ≤ 2 ^ (30 * n) := Nat.pow_le_pow_right (by decide) (by omega)
  rw [Nat.pow_add] at hdouble
  omega

/-- **The machine reads every text to its end**: it finds the trees of the text, or it refuses the text when
nothing is left to try. -/
theorem ended_run (text : List Char) :
    (Machine.run Grammar.rules (rounds text.length) (Grammar.script (Cursor.start text))).Ended :=
  Machine.ended_run (by decide) Grammar.takes_rules (Grammar.takes_script (Cursor.start text) trivial)
    (moves_lt_rounds text.length)

/-- More rounds find nothing else. -/
theorem run_of_rounds_le (text : List Char) {more : Nat} (hmore : rounds text.length ≤ more) :
    Machine.run Grammar.rules more (Grammar.script (Cursor.start text)) =
      Machine.run Grammar.rules (rounds text.length) (Grammar.script (Cursor.start text)) :=
  Machine.run_eq_of_ended (ended_run text) hmore

end Phrasebook.Script
