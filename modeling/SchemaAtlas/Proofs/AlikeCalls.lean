import SchemaAtlas.Builder.Lowering.Expression
import SchemaAtlas.Proofs.AlikeSites
import SchemaAtlas.Proofs.KeptUnless

namespace SchemaAtlas
namespace Builder

open Script

-- What is made of a call without lowering an argument. Alike calls give the same, or they are
-- refused alike: in the same place where the likeness is exact, and somewhere where it is not.

-- Refusals in different places are told apart only by an exact likeness.
def Excuses (stops : Refusal → Prop) (l : Likeness) : Prop := l.exact ∨ ∀ r, stops r

variable {l : Likeness} {stops : Refusal → Prop} {c d : Call} {a b : Argument}

namespace Argument.Alike

theorem text? (alike : a.Alike l b) : b.text? = a.text? := by rw [Argument.text?, Argument.text?, alike.value]

theorem double? (alike : a.Alike l b) : b.double? = a.double? := by rw [Argument.double?, Argument.double?, alike.value]

theorem count? (alike : a.Alike l b) : b.count? = a.count? := by rw [Argument.count?, Argument.count?, alike.value]

end Argument.Alike

namespace Call.Alike

theorem argument? (alike : c.Alike l d) (index : Nat) :
    Option.Rel (Argument.Alike l) (c.argument? index) (d.argument? index) :=
  forall₂_getElem? alike.arguments index

theorem asked {f : Argument → Option α} (same : ∀ a b : Argument, a.Alike l b → f b = f a) (alike : c.Alike l d)
    (index : Nat) : (d.argument? index).bind f = (c.argument? index).bind f := by
  have arguments := alike.argument? index
  generalize c.argument? index = one at arguments
  generalize d.argument? index = two at arguments
  cases arguments with
  | none => rfl
  | some beside => exact same _ _ beside

theorem value (alike : c.Alike l d) (index : Nat) :
    (d.argument? index).bind Argument.value = (c.argument? index).bind Argument.value :=
  alike.asked (fun _ _ beside => beside.value) index

theorem text (alike : c.Alike l d) (index : Nat) :
    (d.argument? index).bind Argument.text? = (c.argument? index).bind Argument.text? :=
  alike.asked (fun _ _ beside => beside.text?) index

end Call.Alike

theorem refinement_alike (alike : c.Alike l d) : refinement d = refinement c := by
  unfold refinement
  rw [alike.value, alike.name]

theorem applyDefault_alike (s : State) (alike : c.ShownAlike l d) (shows : Tree.showsArgument c.name = true) :
    applyDefault s d = applyDefault s c := by
  have text := alike.shown
  have arguments := alike.argument? 0
  unfold Call.shown? at text
  rw [alike.name, if_pos shows, if_pos shows] at text
  unfold applyDefault
  rw [alike.value]
  generalize c.argument? 0 = one at arguments text
  generalize d.argument? 0 = two at arguments text
  cases arguments with
  | none => rfl
  | @some a b beside =>
    have own : b.site.text = a.site.text := Option.some.inj text
    dsimp only
    rw [own]

theorem textList?_alike (alike : c.Alike l d) : textList? d = textList? c := by
  have arguments := alike.argument? 0
  unfold textList?
  generalize c.argument? 0 = one at arguments
  generalize d.argument? 0 = two at arguments
  cases arguments with
  | none => rfl
  | some beside => simp only [Option.bind_eq_bind, Option.bind_some, beside.value]

section Refusals

variable (excuses : Excuses stops l)

include excuses

theorem refuse_alike (text : String) {x y : Location} (placed : l.exact → y = x) :
    KeptUnless stops (refuse text x : Lowered α) (refuse text y) := by
  rcases excuses with exact | all
  · exact .of_eq (by rw [placed exact])
  · exact .stopped (all _)

theorem call_refuse_alike (alike : c.Alike l d) (text : String) :
    KeptUnless stops (c.refuse text : Lowered α) (d.refuse text) := by
  unfold Call.refuse Call.quotedName
  rw [alike.name]
  exact refuse_alike excuses _ alike.location

theorem argumentOr_alike {f g : Argument → Lowered α} (alike : c.Alike l d) (index : Nat) (text : String)
    (next : ∀ a b : Argument, c.argument? index = some a → a.Alike l b → KeptUnless stops (f a) (g b)) :
    KeptUnless stops (argumentOr c index text >>= f) (argumentOr d index text >>= g) := by
  have arguments := alike.argument? index
  unfold argumentOr
  generalize c.argument? index = one at arguments next
  generalize d.argument? index = two at arguments
  cases arguments with
  | none => exact call_refuse_alike excuses alike text
  | some beside => exact next _ _ rfl beside

theorem first_alike {f g : Argument → Lowered α} (alike : c.Alike l d)
    (next : ∀ a b : Argument, a.Alike l b → KeptUnless stops (f a) (g b)) :
    KeptUnless stops (c.first >>= f) (d.first >>= g) :=
  argumentOr_alike excuses alike 0 "expects an argument" fun a b _ => next a b

theorem firstDouble_alike (alike : c.Alike l d) : KeptUnless stops c.firstDouble d.firstDouble := by
  refine first_alike excuses alike fun a b beside => ?_
  rw [beside.double?]
  cases a.double? with
  | some _ => exact .kept _
  | none => exact call_refuse_alike excuses alike _

theorem firstCount_alike (alike : c.Alike l d) : KeptUnless stops c.firstCount d.firstCount := by
  refine first_alike excuses alike fun a b beside => ?_
  rw [beside.count?]
  cases a.count? with
  | some _ => exact .kept _
  | none => exact call_refuse_alike excuses alike _

theorem firstText_alike (alike : c.Alike l d) : KeptUnless stops c.firstText d.firstText := by
  refine first_alike excuses alike fun a b beside => ?_
  rw [beside.text?]
  cases a.text? with
  | some _ => exact .kept _
  | none => exact call_refuse_alike excuses alike _

theorem patternArgument_alike (alike : c.Alike l d) : KeptUnless stops (patternArgument c) (patternArgument d) := by
  refine first_alike excuses alike fun a b beside => ?_
  rw [beside.site.kind]
  split
  · exact call_refuse_alike excuses alike _
  · have found := forall₂_find? (p := fun s : Site => s.kind == .regexPattern) (q := fun s => s.kind == .regexPattern)
      (fun _ _ same => by rw [same.kind]) beside.site.parts
    have trees (s : Site) : s.tree.parts.find? (·.kind == .regexPattern) =
        (s.parts.find? (·.kind == .regexPattern)).map Site.tree := by
      rw [Site.parts, List.find?_map, Option.map_map]
      exact (congrFun Option.map_id _).symm
    rw [trees, trees]
    generalize isPattern : a.site.parts.find? _ = one at found
    generalize b.site.parts.find? _ = two at found
    cases found with
    | none => exact refuse_alike excuses _ alike.location
    | some pattern =>
      have kind := List.find?_some isPattern
      exact .of_eq (congrArg _ (pattern.text (by rw [eq_of_beq kind]; rfl)).symm)

theorem textPattern?_alike (alike : c.Alike l d) : KeptUnless stops (textPattern? c) (textPattern? d) := by
  unfold textPattern?
  rw [alike.name]
  split
  · exact (firstText_alike excuses alike).bind fun _ => .kept _
  · exact (firstText_alike excuses alike).bind fun _ => .kept _
  · exact (firstText_alike excuses alike).bind fun _ => .kept _
  · exact (patternArgument_alike excuses alike).bind fun _ => .kept _
  · exact .kept _

theorem constrainText_alike (n : SchemaNode) (alike : c.Alike l d) :
    KeptUnless stops (constrainText n c) (constrainText n d) := by
  unfold constrainText
  rw [alike.name]
  dsimp only
  split
  · exact (firstCount_alike excuses alike).bind fun _ => .kept _
  · split
    · exact .kept _
    · split
      · exact .kept _
      · exact (textPattern?_alike excuses alike).bind fun _ => .kept _

theorem constrainNumber_alike (n : SchemaNode) (alike : c.Alike l d) :
    KeptUnless stops (constrainNumber n c) (constrainNumber n d) := by
  unfold constrainNumber
  rw [alike.name]
  dsimp only
  split
  · exact (firstDouble_alike excuses alike).bind fun _ => .kept _
  · exact .kept _
  · exact .kept _

theorem constrainArray_alike (n : SchemaNode) (alike : c.Alike l d) :
    KeptUnless stops (constrainArray n c) (constrainArray n d) := by
  unfold constrainArray
  rw [alike.name]
  dsimp only
  split
  · exact (firstCount_alike excuses alike).bind fun _ => .kept _
  · exact .kept _

theorem constrain_alike (n : SchemaNode) (alike : c.Alike l d) : KeptUnless stops (constrain n c) (constrain n d) := by
  unfold constrain
  split
  · exact constrainText_alike excuses n alike
  · exact constrainNumber_alike excuses n alike
  · exact constrainNumber_alike excuses n alike
  · exact constrainArray_alike excuses n alike
  · exact .kept _

theorem maskOf_alike (alike : c.Alike l d) : KeptUnless stops (maskOf c) (maskOf d) := by
  have arguments := alike.argument? 0
  unfold maskOf
  generalize c.argument? 0 = one at arguments
  generalize d.argument? 0 = two at arguments
  cases arguments with
  | none => exact .kept _
  | some beside =>
    dsimp only
    rw [beside.value]
    split
    · exact .kept _
    · exact call_refuse_alike excuses alike _

theorem markProperties_alike (n : SchemaNode) (required : Bool) (alike : c.Alike l d) :
    KeptUnless stops (markProperties n c required) (markProperties n d required) :=
  (maskOf_alike excuses alike).bind fun _ => .kept _

theorem keepProperties_alike (n : SchemaNode) (keep : Bool) (alike : c.Alike l d) :
    KeptUnless stops (keepProperties n c keep) (keepProperties n d keep) := by
  refine (maskOf_alike excuses alike).bind fun mask => ?_
  cases mask with
  | none => exact call_refuse_alike excuses alike _
  | some names => exact .kept _

theorem restrictEnum_alike (n : SchemaNode) (values : List Json) (alike : c.Alike l d) :
    KeptUnless stops (restrictEnum n values c) (restrictEnum n values d) := by
  unfold restrictEnum
  rw [alike.value, alike.name]
  split
  · exact .kept _
  · exact call_refuse_alike excuses alike _

theorem buildTextEnum_alike (alike : c.Alike l d) : KeptUnless stops (buildTextEnum c) (buildTextEnum d) := by
  unfold buildTextEnum
  rw [textList?_alike alike]
  split
  · exact .kept _
  · exact call_refuse_alike excuses alike _

theorem buildScalar_alike (alike : c.Alike l d) : KeptUnless stops (buildScalar c) (buildScalar d) := by
  unfold buildScalar
  rw [alike.value, alike.name]
  split
  · split
    · exact .kept _
    · exact call_refuse_alike excuses alike _
  · split
    · exact .kept _
    · exact refuse_alike excuses _ alike.location

end Refusals

theorem givenBy?_alike {s t : Site} (alike : s.Alike l t) : Option.Rel (Site.Alike l) (givenBy? s) (givenBy? t) := by
  have returned : Option.Rel (Site.Alike l)
      (do
        let body ← s.child? .body
        if body.kind != .statementBlock then return body
        else (← body.parts.find? (·.kind == .returnStatement)).parts.head?)
      (do
        let body ← t.child? .body
        if body.kind != .statementBlock then return body
        else (← body.parts.find? (·.kind == .returnStatement)).parts.head?) := by
    cases stands : s.child? .body with
    | none =>
      rw [alike.child?_none stands]
      exact .none
    | some body =>
      obtain ⟨other, given, same⟩ := alike.child? stands
      rw [given]
      simp only [Option.bind_eq_bind, Option.bind_some, same.kind]
      split
      · exact .some same
      · have found := forall₂_find? (p := fun s => s.kind == .returnStatement)
          (q := fun s => s.kind == .returnStatement) (fun a b alike => by rw [alike.kind]) same.parts
        generalize body.parts.find? _ = one at found
        generalize other.parts.find? _ = two at found
        cases found with
        | none => exact .none
        | some statement => exact forall₂_head? statement.parts
  unfold givenBy?
  rw [alike.kind]
  split
  · exact returned
  · exact returned
  · exact .none

end Builder
end SchemaAtlas
