import SchemaAtlas.Proofs.BuildTerms

namespace SchemaAtlas

-- Only the nesting of schemas is held to the ceiling: with a higher one a build reads on
-- where it was stopped, and everything else it reads as before.

def Failure.BeyondCeiling (failure : Failure) : Prop := ∃ limit path, failure = .recursionLimit limit path

namespace OpenApi

variable {lower higher : Nat} {p : Place}

theorem followChain_ceiling (ceiling : Nat) (first : String) (steps : Nat) (chain : List String) (current : Json) :
    followChain { p with maxDepth := ceiling } first steps chain current = followChain p first steps chain current := by
  induction steps generalizing chain current with
  | zero => rfl
  | succ steps ih =>
    simp only [followChain, ih]
    rfl

theorem resolve_ceiling (ceiling : Nat) (text : String) (kind : Section) :
    resolve { p with maxDepth := ceiling } text kind = resolve p text kind := by
  simp only [resolve, followChain_ceiling]
  rfl

theorem agree_raised (raised : lower ≤ higher) (root : Json) :
    Terms.Agree Failure.BeyondCeiling ⟨root, lower⟩ ⟨root, higher⟩ := by
  have same (p : Place) (text : String) (kind : Section) :
      resolve (p.under ⟨root, lower⟩) text kind = resolve (p.under ⟨root, higher⟩) text kind :=
    resolve_ceiling (p := p.under ⟨root, higher⟩) lower text kind
  refine ⟨raised, fun limit path => ⟨limit, path, rfl⟩, fun text p => .of_eq ?_, fun kind _ text p => .of_eq ?_⟩
  · dsimp only [readReference]
    rw [same]
    rfl
  · dsimp only [resolveHere]
    rw [same]
    rfl

theorem readComponents_raised (raised : lower ≤ higher) (root : Json) :
    Kept Failure.BeyondCeiling ⟨root, lower⟩ ⟨root, higher⟩ readComponents readComponents := by
  have agree := agree_raised raised root
  intro start
  dsimp only [readComponents, Place.under]
  cases root.get? "components" with
  | none => exact .kept _
  | some value =>
    dsimp only
    cases value.asObject? with
    | none => exact .kept _
    | some components =>
      refine (readSection_kept components .schemas (schemaComponent_kept agree) start).bind fun schemas => ?_
      refine (readSection_kept components .parameters (parameterComponent_kept agree) start).bind fun parameters => ?_
      refine (readSection_kept components .responses (responseComponent_kept agree) start).bind fun responses => ?_
      refine (readSection_kept components .requestBodies (requestBodyComponent_kept agree) start).bind fun bodies => ?_
      have schemes : Kept Failure.BeyondCeiling ⟨root, lower⟩ ⟨root, higher⟩
          (readSection · components .securitySchemes securitySchemeComponent)
          (readSection · components .securitySchemes securitySchemeComponent) :=
        readSection_kept components .securitySchemes securitySchemeComponent_kept
      exact (schemes start).bind fun schemes => .kept _

theorem build_raised (raised : lower ≤ higher) (source : Json) :
    KeptUnless Failure.BeyondCeiling (build lower source) (build higher source) := by
  dsimp only [build]
  cases source.asObject? with
  | none => exact .kept _
  | some root =>
    refine .after _ fun version => ?_
    refine .after _ fun security => ?_
    refine (readComponents_raised raised source (Place.start source 0)).bind fun components => ?_
    exact (readPaths_kept (agree_raised raised source) rfl security (Place.start source 0)).bind fun operations => .kept _

end OpenApi
end SchemaAtlas
