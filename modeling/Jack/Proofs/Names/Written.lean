import Jack.Proofs.Names.Acceptance

namespace Jack

/-!
# Where declarations are written

Except for the object of a method, every declaration stands in the source: its name is an identifier
there, and its type is one of the types that are written there.
-/

/-- The name and the type of a declaration are among the lexemes. -/
structure Declaration.WrittenIn (lexemes : List Lexeme) (d : Declaration) : Prop where
  name : .identifier d.name ∈ lexemes
  type : ∃ type : TypeName, d.type = type.text ∧ type.lexeme ∈ lexemes

namespace Declaration.WrittenIn

variable {part lexemes : List Lexeme} {d : Declaration}

/-- A declaration that is written in a part is written in the whole. -/
theorem mono (among : ∀ l ∈ part, l ∈ lexemes) (written : d.WrittenIn part) :
    d.WrittenIn lexemes := by
  rcases written with ⟨name, type, text, typeThere⟩
  exact ⟨among _ name, type, text, among _ typeThere⟩

end Declaration.WrittenIn

/-- The name and the type of each variable of a group stand in the group. -/
theorem VariableGroup.writtenIn_of_mem {g : VariableGroup} {kind : SymbolKind} {d : Declaration}
    (member : d ∈ g.declarations kind) : d.WrittenIn g.lexemes := by
  rcases List.mem_map.mp member with ⟨name, inGroup, rfl⟩
  refine ⟨?_, g.type, rfl, List.mem_cons_self⟩
  rcases List.mem_cons.mp inGroup with rfl | inMore
  · exact List.mem_cons_of_mem _ List.mem_cons_self
  · refine List.mem_cons_of_mem _ (List.mem_cons_of_mem _ (List.mem_append_left _ ?_))
    exact List.mem_flatMap_of_mem inMore (List.mem_cons_of_mem _ List.mem_cons_self)

theorem ClassVariables.writtenIn_of_mem {line : ClassVariables} {d : Declaration}
    (member : d ∈ line.declarations) : d.WrittenIn line.lexemes := by
  cases line with
  | static group | field group =>
      exact (group.writtenIn_of_mem member).mono fun _ => List.mem_cons_of_mem _

theorem Parameter.writtenIn (p : Parameter) : p.declaration.WrittenIn p.lexemes :=
  ⟨List.mem_cons_of_mem _ List.mem_cons_self, p.type, rfl, List.mem_cons_self⟩

/-- The lexemes of a parameter are among those of the list. -/
theorem Parameter.mem_parameterLexemes {parameters : List Parameter} {p : Parameter} {l : Lexeme}
    (listed : p ∈ parameters) (inParameter : l ∈ p.lexemes) : l ∈ parameterLexemes parameters := by
  cases parameters with
  | nil => cases listed
  | cons first rest =>
      rcases List.mem_cons.mp listed with rfl | inRest
      · exact List.mem_append_left _ inParameter
      · exact List.mem_append_right _
          (List.mem_flatMap_of_mem inRest (List.mem_cons_of_mem _ inParameter))

namespace Subroutine

variable {s : Subroutine} {d : Declaration}

/-- The declarations that stand in the subroutine. -/
def ownDeclarations (s : Subroutine) : List Declaration :=
  s.parameters.map Parameter.declaration ++ s.localDeclarations

/-- The declarations of a subroutine are its own ones behind the object of a method, which is not
written in the source. -/
theorem declarations_eq (className : String) (s : Subroutine) :
    s.declarations className = receiverDeclarations className s.kind ++ s.ownDeclarations :=
  List.append_assoc _ _ _

theorem writtenIn_of_mem (member : d ∈ s.ownDeclarations) : d.WrittenIn s.lexemes := by
  rcases List.mem_append.mp member with isParameter | isLocal
  · rcases List.mem_map.mp isParameter with ⟨p, listed, rfl⟩
    refine p.writtenIn.mono fun l inParameter => ?_
    have inList := p.mem_parameterLexemes listed inParameter
    simp only [lexemes, List.mem_cons, List.mem_append, inList, true_or, or_true]
  · rcases List.mem_flatMap.mp isLocal with ⟨group, listed, inGroup⟩
    refine (group.writtenIn_of_mem inGroup).mono fun l isThere => ?_
    have inLocals : l ∈ s.locals.flatMap VariableGroup.localLexemes :=
      List.mem_flatMap_of_mem listed (List.mem_cons_of_mem _ isThere)
    simp only [lexemes, List.mem_cons, List.mem_append, inLocals, true_or, or_true]

end Subroutine

/-- The name and the type of each variable of a class stand in the class. -/
theorem ClassTree.writtenIn_of_mem {c : ClassTree} {d : Declaration}
    (member : d ∈ c.declarations) : d.WrittenIn c.lexemes := by
  rcases List.mem_flatMap.mp member with ⟨line, listed, inLine⟩
  exact (line.writtenIn_of_mem inLine).mono fun l isThere =>
    mem_lexemes_of_mem_members listed isThere

end Jack
