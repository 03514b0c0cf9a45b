import Jack.CommandLine.Arguments

namespace Jack

/-!
# What arguments consist of

Well-formed arguments are a sequence of items: an output with its path, a flag, or a source.  There
is one source among them, the last output counts, and a flag may come any number of times.  Reading
accepts these arguments and no others (`Invocation.parse_language`).
-/

namespace Invocation

/-- An item of the command line. -/
inductive Item
  | output (path : String)
  | strict
  | noFold
  | source (path : String)
deriving DecidableEq

namespace Item

/-- The arguments that make up an item. -/
def words : Item → List String
  | output path => ["-o", path]
  | strict => ["--strict"]
  | noFold => ["--no-fold"]
  | source path => [path]

/-- A source does not start with a dash. -/
def Legal : Item → Prop
  | source path => isDashed path = false
  | _ => True

instance : DecidablePred Legal
  | source path => inferInstanceAs (Decidable (isDashed path = false))
  | output _ | strict | noFold => isTrue trivial

/-- The path of an item that names an output. -/
def output? : Item → Option String
  | output path => some path
  | _ => none

/-- The path of an item that names a source. -/
def source? : Item → Option String
  | source path => some path
  | _ => none

end Item

variable {source output : Option String} {options : Options} {i : Invocation}

/-! ## Reading an item -/

variable {rest : List String} {path : String}

/-- A later output replaces an earlier one. -/
theorem parseBehind_output :
    parseBehind source output options ("-o" :: path :: rest) =
      parseBehind source (some path) options rest := by
  simp only [parseBehind, if_true]

theorem parseBehind_strict :
    parseBehind source output options ("--strict" :: rest) =
      parseBehind source output { options with strictDeclarations := true } rest := by
  rw [parseBehind.eq_def]
  rfl

theorem parseBehind_noFold :
    parseBehind source output options ("--no-fold" :: rest) =
      parseBehind source output { options with foldTailReturn := false } rest := by
  rw [parseBehind.eq_def]
  rfl

/-- An argument that is neither an option nor a flag is a source. -/
theorem parseBehind_other (notOutput : path ≠ "-o") (notStrict : path ≠ "--strict")
    (notNoFold : path ≠ "--no-fold") :
    parseBehind source output options (path :: rest) =
      if isDashed path || source.isSome then none
      else parseBehind (some path) output options rest := by
  rw [parseBehind.eq_def]
  simp only [if_neg notOutput, if_neg notStrict, if_neg notNoFold]

/-! ## The items of the arguments -/

/-- Items behind those that have given a source, an output and options ask for an invocation. -/
structure Asks (items : List Item) (source output : Option String) (options : Options)
    (i : Invocation) : Prop where
  legal : ∀ item ∈ items, item.Legal
  source : source.toList ++ items.filterMap Item.source? = [i.source]
  output : i.output = (items.filterMap Item.output?).getLast?.or output
  strict : i.options.strictDeclarations = (options.strictDeclarations || decide (.strict ∈ items))
  fold : i.options.foldTailReturn = (options.foldTailReturn && decide (.noFold ∉ items))

variable {items : List Item}

/-- Nothing is left to be asked for.  What has been found so far is the invocation, and there has to
be a source among it. -/
theorem asks_nil :
    Asks [] source output options i ↔
      source = some i.source ∧ i.output = output ∧ i.options = options := by
  constructor
  · rintro ⟨-, given, sameOutput, strict, fold⟩
    have sameOptions : i.options = options := by
      rcases i with ⟨path, last, strictDeclarations, foldTailReturn⟩
      rcases options with ⟨strictBefore, foldBefore⟩
      simp only [List.not_mem_nil, not_false_eq_true, decide_false, decide_true, Bool.or_false,
        Bool.and_true] at strict fold
      rw [strict, fold]
    cases source with
    | none => cases given
    | some path =>
        rw [List.head_eq_of_cons_eq given]
        exact ⟨rfl, sameOutput, sameOptions⟩
  · rintro ⟨rfl, rfl, rfl⟩
    exact ⟨List.forall_mem_nil _, rfl, rfl, by simp, by simp⟩

/-- The last output behind an output is the last of those behind, or the output itself. -/
theorem asks_cons_output :
    Asks (.output path :: items) source output options i ↔
      Asks items source (some path) options i := by
  have last : ((Item.output path :: items).filterMap Item.output?).getLast?.or output =
      (items.filterMap Item.output?).getLast?.or (some path) := by
    have behind : ((Item.output path :: items).filterMap Item.output?).getLast? =
        some ((items.filterMap Item.output?).getLast?.getD path) := List.getLast?_cons
    rw [behind, Option.or_some, Option.some_or]
  constructor
  · rintro ⟨legal, single, sameOutput, strict, fold⟩
    exact ⟨(List.forall_mem_cons.mp legal).2, single, sameOutput.trans last, by simpa using strict,
      by simpa using fold⟩
  · rintro ⟨legal, single, sameOutput, strict, fold⟩
    exact ⟨List.forall_mem_cons.mpr ⟨trivial, legal⟩, single, sameOutput.trans last.symm,
      by simpa using strict, by simpa using fold⟩

theorem asks_cons_strict :
    Asks (.strict :: items) source output options i ↔
      Asks items source output { options with strictDeclarations := true } i := by
  constructor
  · rintro ⟨legal, single, sameOutput, strict, fold⟩
    exact ⟨(List.forall_mem_cons.mp legal).2, single, sameOutput, by simpa using strict,
      by simpa using fold⟩
  · rintro ⟨legal, single, sameOutput, strict, fold⟩
    exact ⟨List.forall_mem_cons.mpr ⟨trivial, legal⟩, single, sameOutput, by simpa using strict,
      by simpa using fold⟩

theorem asks_cons_noFold :
    Asks (.noFold :: items) source output options i ↔
      Asks items source output { options with foldTailReturn := false } i := by
  constructor
  · rintro ⟨legal, single, sameOutput, strict, fold⟩
    exact ⟨(List.forall_mem_cons.mp legal).2, single, sameOutput, by simpa using strict,
      by simpa using fold⟩
  · rintro ⟨legal, single, sameOutput, strict, fold⟩
    exact ⟨List.forall_mem_cons.mpr ⟨trivial, legal⟩, single, sameOutput, by simpa using strict,
      by simpa using fold⟩

/-- A source is legal, and it is the first one. -/
theorem asks_cons_source :
    Asks (.source path :: items) source output options i ↔
      isDashed path = false ∧ source = none ∧ Asks items (some path) output options i := by
  constructor
  · rintro ⟨legal, single, sameOutput, strict, fold⟩
    rcases List.forall_mem_cons.mp legal with ⟨notDashed, legal⟩
    cases source with
    | none =>
        exact ⟨notDashed, rfl, legal, single, sameOutput, by simpa using strict,
          by simpa using fold⟩
    | some first => cases List.tail_eq_of_cons_eq single
  · rintro ⟨notDashed, rfl, legal, single, sameOutput, strict, fold⟩
    exact ⟨List.forall_mem_cons.mpr ⟨notDashed, legal⟩, single, sameOutput, by simpa using strict,
      by simpa using fold⟩

/-- What arguments ask for, told from left to right. -/
theorem exists_asks_of_parseBehind {arguments : List String}
    (parsed : parseBehind source output options arguments = some i) :
    ∃ items : List Item, arguments = items.flatMap Item.words ∧
      Asks items source output options i := by
  induction source, output, options, arguments using parseBehind.induct generalizing i with
  | case1 source output options =>
      rw [parseBehind] at parsed
      rcases Option.map_eq_some_iff.mp parsed with ⟨path, given, rfl⟩
      exact ⟨[], rfl, asks_nil.mpr ⟨given, rfl, rfl⟩⟩
  | case2 source output options =>
      simp only [parseBehind, if_true] at parsed
      cases parsed
  | case3 source output options path rest inductionHypothesis =>
      rw [parseBehind_output] at parsed
      rcases inductionHypothesis parsed with ⟨items, rfl, asks⟩
      exact ⟨.output path :: items, rfl, asks_cons_output.mpr asks⟩
  | case4 source output options rest notOutput inductionHypothesis =>
      rw [parseBehind_strict] at parsed
      rcases inductionHypothesis parsed with ⟨items, rfl, asks⟩
      exact ⟨.strict :: items, rfl, asks_cons_strict.mpr asks⟩
  | case5 source output options rest notOutput notStrict inductionHypothesis =>
      rw [parseBehind_noFold] at parsed
      rcases inductionHypothesis parsed with ⟨items, rfl, asks⟩
      exact ⟨.noFold :: items, rfl, asks_cons_noFold.mpr asks⟩
  | case6 source output options path rest notOutput notStrict notNoFold refused =>
      rw [parseBehind_other notOutput notStrict notNoFold, if_pos refused] at parsed
      cases parsed
  | case7 source output options path rest notOutput notStrict notNoFold accepted
      inductionHypothesis =>
      rw [parseBehind_other notOutput notStrict notNoFold, if_neg accepted] at parsed
      rcases inductionHypothesis parsed with ⟨items, rfl, asks⟩
      rw [Bool.or_eq_true, not_or, Bool.not_eq_true, Bool.not_eq_true] at accepted
      rcases accepted with ⟨legal, first⟩
      rw [Option.isSome_eq_false_iff, Option.isNone_iff_eq_none] at first
      exact ⟨.source path :: items, rfl, asks_cons_source.mpr ⟨legal, first, asks⟩⟩

/-- Legal items are read as they stand. -/
theorem parseBehind_items {items : List Item} (legal : ∀ item ∈ items, item.Legal) :
    parseBehind source output options (items.flatMap Item.words) = some i ↔
      Asks items source output options i := by
  induction items generalizing source output options with
  | nil =>
      rw [asks_nil]
      constructor
      · intro parsed
        rcases Option.map_eq_some_iff.mp parsed with ⟨path, rfl, rfl⟩
        exact ⟨rfl, rfl, rfl⟩
      · rintro ⟨rfl, rfl, rfl⟩
        rfl
  | cons item items inductionHypothesis =>
      rcases List.forall_mem_cons.mp legal with ⟨first, others⟩
      cases item with
      | output path =>
          change parseBehind source output options ("-o" :: path :: items.flatMap Item.words) =
            some i ↔ _
          rw [parseBehind_output, inductionHypothesis others, asks_cons_output]
      | strict =>
          change parseBehind source output options ("--strict" :: items.flatMap Item.words) =
            some i ↔ _
          rw [parseBehind_strict, inductionHypothesis others, asks_cons_strict]
      | noFold =>
          change parseBehind source output options ("--no-fold" :: items.flatMap Item.words) =
            some i ↔ _
          rw [parseBehind_noFold, inductionHypothesis others, asks_cons_noFold]
      | source path =>
          have notDashed : isDashed path = false := first
          have notOption {word : String} (dashed : isDashed word = true) : path ≠ word := by
            rintro rfl
            rw [notDashed] at dashed
            cases dashed
          change parseBehind source output options (path :: items.flatMap Item.words) = some i ↔ _
          rw [parseBehind_other (notOption (by decide)) (notOption (by decide))
            (notOption (by decide)), asks_cons_source, ← inductionHypothesis others]
          cases source with
          | none => simp [notDashed]
          | some earlier => simp

/-- Well-formed arguments are items, and the invocation is what these ask for. -/
theorem exists_asks_of_parse {arguments : List String} (parsed : parse arguments = some i) :
    ∃ items : List Item, arguments = items.flatMap Item.words ∧ Asks items none none { } i :=
  exists_asks_of_parseBehind parsed

/-- Arguments are well-formed if they are items that ask for something. -/
theorem parse_eq_some_iff_asks {arguments : List String} :
    parse arguments = some i ↔
      ∃ items : List Item, arguments = items.flatMap Item.words ∧ Asks items none none { } i := by
  constructor
  · exact exists_asks_of_parse
  · rintro ⟨items, rfl, asks⟩
    exact (parseBehind_items asks.legal).mpr asks

/-- What items ask for depends on the sources, the outputs and the occurrence of flags. -/
theorem Asks.congr {items items' : List Item} (asks : Asks items none none { } i)
    (legal : ∀ item ∈ items', item.Legal)
    (sources : items'.filterMap Item.source? = items.filterMap Item.source?)
    (outputs : items'.filterMap Item.output? = items.filterMap Item.output?)
    (strict : .strict ∈ items' ↔ .strict ∈ items) (noFold : .noFold ∈ items' ↔ .noFold ∈ items) :
    Asks items' none none { } i where
  legal := legal
  source := sources ▸ asks.source
  output := outputs ▸ asks.output
  strict := by
    rw [asks.strict, decide_eq_decide.mpr strict]
  fold := by
    rw [asks.fold, decide_eq_decide.mpr (not_congr noFold)]

/-- The order of items does not matter, apart from that of the outputs. -/
theorem Asks.perm {items items' : List Item} (asks : Asks items none none { } i)
    (perm : items'.Perm items)
    (outputs : items'.filterMap Item.output? = items.filterMap Item.output?) :
    Asks items' none none { } i := by
  have legal : ∀ item ∈ items', item.Legal := fun item member =>
    asks.legal item (perm.mem_iff.mp member)
  have single : items'.filterMap Item.source? = [i.source] :=
    List.perm_singleton.mp (asks.source ▸ perm.filterMap Item.source?)
  exact asks.congr legal (single.trans asks.source.symm) outputs perm.mem_iff perm.mem_iff

/-- A flag may be given once more. -/
theorem Asks.insert_flag {before behind : List Item} {flag : Item}
    (asks : Asks (before ++ behind) none none { } i) (isFlag : flag = .strict ∨ flag = .noFold)
    (given : flag ∈ before ++ behind) : Asks (before ++ flag :: behind) none none { } i := by
  have members (item : Item) : item ∈ before ++ flag :: behind ↔ item ∈ before ++ behind := by
    rw [List.perm_middle.mem_iff, List.mem_cons]
    constructor
    · rintro (rfl | member)
      · exact given
      · exact member
    · exact .inr
  have noValue : flag.source? = none ∧ flag.output? = none := by
    rcases isFlag with rfl | rfl <;> exact ⟨rfl, rfl⟩
  exact asks.congr (fun item member => asks.legal item ((members item).mp member))
    (by simp only [List.filterMap_append, List.filterMap_cons, noValue.1])
    (by simp only [List.filterMap_append, List.filterMap_cons, noValue.2])
    (members .strict) (members .noFold)

/-- Items that ask for what other items ask for are read like them. -/
theorem parse_items_congr {items items' : List Item} (legal : ∀ item ∈ items, item.Legal)
    (accepted : (parse (items.flatMap Item.words)).isSome)
    (same : ∀ i, Asks items none none { } i → Asks items' none none { } i) :
    parse (items'.flatMap Item.words) = parse (items.flatMap Item.words) := by
  rcases Option.isSome_iff_exists.mp accepted with ⟨i, parsed⟩
  have asks := same i ((parseBehind_items legal).mp parsed)
  exact ((parseBehind_items asks.legal).mpr asks).trans parsed.symm

/-- Arguments are well-formed exactly if they are legal items with one source among them, and then
they ask for this source, for the last output, and for what the flags say.  The order of items does
not matter, apart from that of the outputs, and neither does how often a flag is given. -/
theorem parse_language :
    (∀ arguments i, parse arguments = some i ↔ ∃ items : List Item,
      arguments = items.flatMap Item.words ∧ (∀ item ∈ items, item.Legal) ∧
        items.filterMap Item.source? = [i.source] ∧
        i.output = (items.filterMap Item.output?).getLast? ∧
        i.options.strictDeclarations = decide (.strict ∈ items) ∧
        i.options.foldTailReturn = decide (.noFold ∉ items)) ∧
    (∀ items items' : List Item, (∀ item ∈ items, item.Legal) →
      (parse (items.flatMap Item.words)).isSome → items'.Perm items →
      items'.filterMap Item.output? = items.filterMap Item.output? →
      parse (items'.flatMap Item.words) = parse (items.flatMap Item.words)) ∧
    ∀ (before behind : List Item) (flag : Item), (∀ item ∈ before ++ behind, item.Legal) →
      flag = .strict ∨ flag = .noFold → flag ∈ before ++ behind →
      (parse ((before ++ behind).flatMap Item.words)).isSome →
      parse ((before ++ flag :: behind).flatMap Item.words) =
        parse ((before ++ behind).flatMap Item.words) := by
  constructor
  · intro arguments i
    rw [parse_eq_some_iff_asks]
    refine exists_congr fun items => and_congr_right fun _ => ?_
    constructor
    · rintro ⟨legal, single, last, strict, fold⟩
      exact ⟨legal, single, by simpa using last, by simpa using strict, by simpa using fold⟩
    · rintro ⟨legal, single, last, strict, fold⟩
      exact ⟨legal, single, by simpa using last, by simpa using strict, by simpa using fold⟩
  constructor
  · intro items items' legal accepted perm outputs
    exact parse_items_congr legal accepted fun i asks => asks.perm perm outputs
  · intro before behind flag legal isFlag given accepted
    exact parse_items_congr legal accepted fun i asks => asks.insert_flag isFlag given

/-- Two outputs, the first of which looks like an option.  The flag is moved to the end, and it is
given once more. -/
theorem parse_language_reordered :
    parse ["--strict", "Main.jack", "-o", "-o", "-o", "out"] =
        some ⟨"Main.jack", some "out", ⟨true, true⟩⟩ ∧
      parse ["Main.jack", "-o", "-o", "-o", "out", "--strict"] =
        parse ["--strict", "Main.jack", "-o", "-o", "-o", "out"] ∧
      parse ["--strict", "Main.jack", "--strict", "-o", "-o", "-o", "out"] =
        parse ["--strict", "Main.jack", "-o", "-o", "-o", "out"] := by
  have parsed := (parse_language.1 ["--strict", "Main.jack", "-o", "-o", "-o", "out"]
    ⟨"Main.jack", some "out", ⟨true, true⟩⟩).mpr
    ⟨[.strict, .source "Main.jack", .output "-o", .output "out"], by decide⟩
  have accepted : (parse ["--strict", "Main.jack", "-o", "-o", "-o", "out"]).isSome := by
    rw [parsed]
    rfl
  exact ⟨parsed,
    parse_language.2.1 [.strict, .source "Main.jack", .output "-o", .output "out"]
      [.source "Main.jack", .output "-o", .output "out", .strict] (by decide) accepted
      (by decide) rfl,
    parse_language.2.2 [.strict, .source "Main.jack"] [.output "-o", .output "out"] .strict
      (by decide) (.inl rfl) (by decide) accepted⟩

end Invocation

end Jack
