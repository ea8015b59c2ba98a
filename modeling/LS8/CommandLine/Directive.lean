import LS8.Console.Log

/-! The choice of a log filter. A directive is the name of a level in any case of letters, or a
target, an equals sign and such a name. -/

namespace LS8

/-- A threshold by its name: a level, or off. -/
def threshold? (name : String) : Option (Option Level) :=
  let name := name.toList.map Char.toUpper
  if name = "OFF".toList then some none
  else (Level.all.find? fun level => level.name.toList = name).map some

/-- The filter that a directive asks for. A target without a level is shown in full, and what makes
no sense leaves the errors of every target. The text is read as one directive, a level or a target with
a level: a list with commas, a pattern behind a slash and blanks around a name are not taken apart. -/
def Filter.ofDirective (directive : String) : Filter :=
  match (directive.toList.splitOn '=').map String.ofList with
  | [name] =>
    match threshold? name with
    | some threshold => ⟨"", threshold⟩
    | none => if name = "" then .upTo .error else ⟨name, some .trace⟩
  | [target, name] =>
    match threshold? name with
    | some threshold => ⟨target, threshold⟩
    | none => if name = "" then ⟨target, some .trace⟩ else .upTo .error
  | _ => .upTo .error

/-- The filter of a call: the directive if there is one, else warnings, or everything in a trace. -/
def Filter.choose (trace : Bool) (directive? : Option String) : Filter :=
  match directive? with
  | some directive => .ofDirective directive
  | none => ⟨"ls8", some (if trace then .trace else .warn)⟩

end LS8
