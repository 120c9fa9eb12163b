import WordScript.Extension.Directive
import WordScript.Proofs.Uniform

/-!
# What extensions store

The functions that extensions offer never store an invalid identifier, and a module of directives
stores one only when a directive names it. So a registry of modules without such directives makes a
host that everything about ownership holds for.
-/

namespace WordScript

/-- Every identifier that the operation stores is a valid one. -/
abbrev Operation.StoresValid (op : Operation) : Prop := op.Stores Identifier.IsValid

namespace Script

variable {α β : Type} {allowed : Operation → Prop} {P : α → Prop} {Q : β → Prop}

theorem Gives.bind {x : Script α} {f : α → Script β} (hx : x.Gives allowed P)
    (hf : ∀ a, P a → (f a).Gives allowed Q) : (x >>= f).Gives allowed Q := by
  change (x.bind f).Gives allowed Q
  induction x with
  | finish result =>
    cases result with
    | ok a => exact hf a hx
    | error e => trivial
  | ask op next ih => exact ⟨hx.1, fun answer h => ih answer (hx.2 answer h)⟩

theorem gives_pure {a : α} (ha : P a) : (pure a : Script α).Gives allowed P := ha

theorem gives_fail (e : RuntimeError) : (fail e : Script α).Gives allowed P := trivial

theorem asksOnly_request (op : Operation) (hop : allowed op) : (request op).AsksOnly allowed := by
  refine ⟨hop, fun answer _ => ?_⟩
  cases answer with
  | ok a => trivial
  | error e => trivial

/-- What is read off the machine is a valid identifier. -/
theorem gives_identifier {h : Handle} (hop : allowed (.identifier h)) :
    (request (.identifier h)).Gives allowed Identifier.IsValid := by
  refine ⟨hop, fun answer hanswer => ?_⟩
  cases answer with
  | ok i => exact hanswer
  | error e => trivial

theorem asksOnly_evaluateEach (es : List Expression) :
    (evaluateEach es).AsksOnly Operation.StoresValid := by
  induction es with
  | nil => exact gives_pure trivial
  | cons e es ih =>
    exact (asksOnly_request _ (by trivial)).bind fun _ _ => ih.bind fun _ _ => gives_pure trivial

theorem asksOnly_pushEach {make : α → Script Identifier}
    (hmake : ∀ a, (make a).Gives Operation.StoresValid Identifier.IsValid) (as : List α) :
    (pushEach make as).AsksOnly Operation.StoresValid := by
  induction as with
  | nil => exact gives_pure trivial
  | cons a as ih =>
    exact (hmake a).bind fun i hi => (asksOnly_request (.push i) hi).bind fun _ _ =>
      ih.bind fun _ _ => gives_pure trivial

theorem asksOnly_requireRead (result : Except SyntaxError Unit) :
    (requireRead result).AsksOnly allowed := by
  cases result with
  | ok _ => exact gives_pure trivial
  | error e => exact gives_fail _

theorem asksOnly_placeText : placeText.AsksOnly Operation.StoresValid :=
  (asksOnly_request _ (by trivial)).bind fun _ _ => gives_pure trivial

end Script

namespace Extension

open Script

theorem isValid_string (text : String) : (Identifier.string text).IsValid :=
  Identifier.IsLiteral.isValid (.string text)

theorem gives_formOf (e : Expression) :
    (Function.formOf e).Gives Operation.StoresValid Identifier.IsValid := by
  cases e with
  | leaf h => exact (gives_identifier (by trivial)).bind fun i _ =>
      gives_pure (isValid_string _)
  | group es => exact gives_pure (isValid_string _)

theorem asksOnly_pushOne {i : Identifier} (hi : i.IsValid) :
    (do
      let h ← request (.push i)
      return [h]).AsksOnly Operation.StoresValid :=
  (asksOnly_request (.push i) hi).bind fun _ _ => gives_pure trivial

/-- No function of an extension stores an invalid identifier. -/
theorem asksOnly_script (f : Function) (parameter : String) (args : List Expression) :
    (f.script parameter args).AsksOnly Operation.StoresValid := by
  cases f with
  | same => exact asksOnly_evaluateEach _
  | reversed => exact (asksOnly_evaluateEach _).bind fun _ _ => gives_pure trivial
  | doubled =>
    refine (asksOnly_evaluateEach _).bind fun _ _ => asksOnly_pushEach (fun h => ?_) _
    refine (gives_identifier (by trivial)).bind fun i _ => ?_
    have hresult := Identifier.isResult_arithmetic .mul i (.int 2)
    cases hi : Identifier.arithmetic .mul i (.int 2) with
    | ok j =>
      rw [hi] at hresult
      exact gives_pure hresult.isValid
    | error e => exact gives_fail e
  | typeNames =>
    refine (asksOnly_evaluateEach _).bind fun _ _ => asksOnly_pushEach (fun h => ?_) _
    exact (gives_identifier (by trivial)).bind fun i _ => gives_pure (isValid_string i.type)
  | operandCount => exact asksOnly_pushOne (Identifier.IsLiteral.isValid (.int _))
  | operandForms => exact asksOnly_pushEach gives_formOf _
  | place =>
    exact asksOnly_placeText.bind fun here _ => asksOnly_pushOne (isValid_string here)
  | runTopLevel =>
    exact (asksOnly_request _ (by trivial)).bind fun result _ =>
      (asksOnly_requireRead result).bind fun _ _ => gives_pure trivial
  | run =>
    exact (asksOnly_request _ (by trivial)).bind fun result _ =>
      (asksOnly_requireRead result).bind fun _ _ => gives_pure trivial
  | fail => exact gives_fail _
  | declare =>
    exact (asksOnly_request _ (by simp [Operation.Stores, Identifier.IsValid,
      Identifier.asVariable])).bind fun _ _ => gives_pure trivial
  | nothing => exact gives_pure trivial

theorem asksOnly_call (label : Native) (args : List Expression) :
    (call label args).AsksOnly Operation.StoresValid := by
  unfold call
  split
  · exact asksOnly_script _ _ _
  · exact gives_fail _

/-- The identifiers that a directive stores are valid ones. -/
def Directive.StoresValid : Directive → Prop
  | .constant _ i => i.IsValid
  | .declare i => i.IsValid
  | _ => True

theorem asksOnly_directive {d : Directive} (hd : d.StoresValid) (args : List Expression) :
    (d.script args).AsksOnly Operation.StoresValid := by
  cases d with
  | constant name i =>
    exact (asksOnly_request (.registerConstant name i) hd).bind fun _ _ => gives_pure trivial
  | declare i => exact (asksOnly_request (.declare i) hd).bind fun _ _ => gives_pure trivial
  | function name isInfix label =>
    exact (asksOnly_request _ (by simp [Operation.Stores, Identifier.IsValid,
      Identifier.function])).bind fun _ _ => gives_pure trivial
  | mention name => exact (asksOnly_request _ (by trivial)).bind fun _ _ => gives_pure trivial
  | loadModule path space => exact asksOnly_request _ (by trivial)
  | fail text => exact gives_fail _
  | argumentCount name =>
    exact (asksOnly_request _ (by simp [Operation.Stores, Identifier.IsValid, Identifier.int,
      Identifier.constant])).bind
      fun _ _ => gives_pure trivial
  | place name =>
    exact asksOnly_placeText.bind fun here _ =>
      (asksOnly_request _ (isValid_string here)).bind
        fun _ _ => gives_pure trivial
  | run text =>
    exact (asksOnly_request _ (by trivial)).bind fun result _ => asksOnly_requireRead result
  | runTopLevel text =>
    exact (asksOnly_request _ (by trivial)).bind fun result _ => asksOnly_requireRead result

theorem asksOnly_entryPoint {ds : List Directive} (hds : ∀ d ∈ ds, d.StoresValid)
    (args : List Expression) : (entryPoint ds args).AsksOnly Operation.StoresValid := by
  induction ds with
  | nil => exact gives_pure trivial
  | cons d ds ih =>
    exact (asksOnly_directive (hds d (by simp)) args).bind fun _ _ =>
      ih fun d hd => hds d (List.mem_cons_of_mem _ hd)

/-- A registry whose directives store valid identifiers makes a host that does. -/
theorem Registry.host_asksOnly {r : Registry}
    (hr : ∀ path ds, (path, ds) ∈ r → ∀ d ∈ ds, d.StoresValid) :
    (Registry.host r).AsksOnly Operation.StoresValid where
  native := asksOnly_call
  entry := by
    intro path entry args hopen
    simp only [Registry.host, Registry.openModule] at hopen
    split at hopen
    · next ds hfind =>
      cases hopen
      exact asksOnly_entryPoint (hr path ds (Bindings.mem_of_find? hfind)) args
    · cases hopen

/-- A module that registers one constant. -/
def Registry.constantModule : Registry := [("m", [.constant "y" (.int 5)])]

end Extension

end WordScript
