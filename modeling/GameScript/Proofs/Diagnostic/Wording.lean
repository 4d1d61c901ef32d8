import GameScript.Diagnostic.Code
import GameScript.Diagnostic.Explain
import GameScript.Proofs.Parse.Nesting

/-!
# Codes by wording

The code and the label of a fault can be told from the wording of its message alone, although messages have characters
and names of the script in them. `lexicalWording?` knows how the messages of the lexer begin, `grammarWording` how
those of the grammar begin or end, and takes every other message for that of an unexpected token. No message of one kind
reads like one of another kind: those of the lexer begin like no message of the grammar (`lexicalWording?_message`,
`lexicalWording?_eq_none`), and those of the grammar have the code and the label of their fault
(`grammarWording_message`).

Main statement: the first fault of a script is reported alike by the lexer and by the reader of whole scripts, and its
diagnostic is the one that its wording tells (`first_fault_reported_alike`).
-/

namespace GameScript

/-! ## What messages tell -/

section Wording

variable (message : String)

/-- Whether a message begins with some words. -/
abbrev BeginsWith (lead : String) : Prop := lead.toList <+: message.toList

/-- Whether a message ends with some words. -/
abbrev EndsWith (tail : String) : Prop := tail.toList <:+ message.toList

/-- The code and the label that the wording of a message of the lexer tells. -/
def lexicalWording? : Option (String × String) :=
  if BeginsWith message "Unexpected character" then some ("E0001", "not valid here")
  else if BeginsWith message "Unterminated string" then some ("E0002", "string starts here")
  else if BeginsWith message "Invalid escape" then some ("E0003", "unknown escape")
  else if BeginsWith message "Invalid number" then some ("E0004", "does not fit in an integer")
  else if BeginsWith message "Unterminated block comment" then some ("E0005", "comment starts here")
  else none

/-- The code and the label that the wording of a message of the grammar tells. -/
def grammarWording : String × String :=
  if message = "Invalid assignment target" then ("E0101", "cannot assign to this")
  else if EndsWith message "must start a statement" then ("E0102", "only allowed at the start of a statement")
  else if BeginsWith message "Unclosed" ∨ BeginsWith message "Unmatched" then ("E0103", "unbalanced")
  else if BeginsWith message "Duplicate parameter" then ("E0104", "already a parameter")
  else if BeginsWith message "'-' can only negate" then ("E0105", "needs a number literal")
  else if message = "Expression nested too deeply" then ("E0106", "nesting limit reached here")
  else ("E0100", "here")

end Wording

/-- An error by what it says and where: its code and its label are those that are told. -/
def Diagnostic.told (wording : String × String) (message : String) (hint : Option String) (span : Span) : Diagnostic :=
  { Diagnostic.error wording.1 message span wording.2 with help := hint }

/-- The diagnostic of a lexer's error, told from its wording. -/
def LexError.toldDiagnostic (e : LexError) : Diagnostic :=
  .told ((lexicalWording? e.fault.message).getD ("E0001", "here")) e.fault.message e.fault.hint e.span

/-- The diagnostic of a parse error, told from its wording; a lexer's error may be the first fault of a script. -/
def ParseError.toldDiagnostic (e : ParseError) : Diagnostic :=
  .told ((lexicalWording? e.fault.message).getD (grammarWording e.fault.message)) e.fault.message e.fault.hint e.span

/-! ## Messages of the lexer -/

theorem beginsWith_append {lead message rest : String} (h : BeginsWith message lead) :
    BeginsWith (message ++ rest) lead := by
  rw [BeginsWith, String.toList_append]
  exact h.trans (List.prefix_append _ _)

/-- A message is none that begins with other words. -/
theorem ne_of_beginsWith {lead message other : String} (h : BeginsWith message lead) (hother : ¬BeginsWith other lead) :
    message ≠ other := fun he => hother (he ▸ h)

theorem lexicalWording?_message (fault : LexFault) :
    lexicalWording? fault.message = some (fault.code, fault.label) := by
  cases fault with
  | unexpectedChar c =>
    exact if_pos (beginsWith_append (beginsWith_append (by decide)))
  | unterminatedString q =>
    have hmessage : lexicalWording? "Unterminated string" = some ("E0002", "string starts here") := by decide
    exact hmessage
  | unterminatedComment => decide
  | invalidEscape => decide
  | invalidNumber => decide

/-! ## Messages of the grammar -/

theorem head?_of_beginsWith {message lead : String} {c : Char} (h : BeginsWith message lead)
    (hlead : lead.toList.head? = some c) : message.toList.head? = some c := by
  obtain ⟨rest, hrest⟩ := h
  rw [← hrest, List.head?_append, hlead]
  rfl

theorem not_beginsWith_of_head? {message lead : String} {c d : Char} (h : message.toList.head? = some c)
    (hlead : lead.toList.head? = some d) (hne : c ≠ d) : ¬BeginsWith message lead := by
  intro hbegins
  rw [head?_of_beginsWith hbegins hlead] at h
  exact hne (Option.some.inj h).symm

/-- A message that begins with a letter that no message of the lexer begins with is none of its messages. -/
theorem lexicalWording?_eq_none {message : String} {c : Char} (h : message.toList.head? = some c)
    (hunexpected : c ≠ 'U') (hinvalid : c ≠ 'I') : lexicalWording? message = none := by
  have hu {lead : String} (hlead : lead.toList.head? = some 'U') : ¬BeginsWith message lead :=
    not_beginsWith_of_head? h hlead hunexpected
  have hi {lead : String} (hlead : lead.toList.head? = some 'I') : ¬BeginsWith message lead :=
    not_beginsWith_of_head? h hlead hinvalid
  unfold lexicalWording?
  rw [if_neg (hu (by decide)), if_neg (hu (by decide)), if_neg (hi (by decide)), if_neg (hi (by decide)),
    if_neg (hu (by decide))]

/-- How a kind of token is called never ends like the words about statements. -/
theorem TokenKind.getLast?_displayName (k : TokenKind) : ∃ c, k.displayName.toList.getLast? = some c ∧ c ≠ 't' := by
  -- symbols end in their quote, the other names are fixed words
  have hlast : k.displayName.toList.getLast?.any (· != 't') = true := by
    cases k with
    | symbol s =>
      have hquote : s.displayName.toList = ('\'' :: s.spelling) ++ ['\''] := by simp [Symbol.displayName]
      rw [TokenKind.displayName, hquote, List.getLast?_concat]
      rfl
    | _ => simp [TokenKind.displayName]
  simpa [Option.any_eq_true] using hlast

/-- A message that ends otherwise is not about the start of a statement. -/
theorem not_endsWith_of_getLast? {message : String} {c : Char} (h : message.toList.getLast? = some c) (hc : c ≠ 't') :
    ¬EndsWith message "must start a statement" := by
  rintro ⟨before, hbefore⟩
  have hlast : message.toList.getLast? = some 't' := by
    rw [← hbefore, List.getLast?_append]
    rfl
  rw [h] at hlast
  exact hc (Option.some.inj hlast)

theorem getLast?_append_of_some {message rest : String} {c : Char} (h : rest.toList.getLast? = some c) :
    (message ++ rest).toList.getLast? = some c := by
  rw [String.toList_append, List.getLast?_append, h]
  rfl

/-- A message that begins like none that the grammar has a code of its own for is that of an unexpected token. -/
theorem grammarWording_eq_other {message : String} {c : Char} (h : message.toList.head? = some c)
    (hc : c ∉ ['I', 'U', 'D', '\'']) (hends : ¬EndsWith message "must start a statement")
    (hdeep : message ≠ "Expression nested too deeply") : grammarWording message = ("E0100", "here") := by
  have hbegins {lead : String} (d : Char) (hlead : lead.toList.head? = some d) (hd : d ∈ ['I', 'U', 'D', '\'']) :
      ¬BeginsWith message lead :=
    not_beginsWith_of_head? h hlead fun he => hc (he ▸ hd)
  have htarget : message ≠ "Invalid assignment target" := by
    rintro rfl
    exact hbegins 'I' (by decide) (by decide) List.prefix_rfl
  have hbracket : ¬(BeginsWith message "Unclosed" ∨ BeginsWith message "Unmatched") :=
    not_or.2 ⟨hbegins 'U' (by decide) (by decide), hbegins 'U' (by decide) (by decide)⟩
  unfold grammarWording
  rw [if_neg htarget, if_neg hends, if_neg hbracket, if_neg (hbegins 'D' (by decide) (by decide)),
    if_neg (hbegins '\'' (by decide) (by decide)), if_neg hdeep]

/-- What is expected and not found is named in front of what is found, unless a bracket is open at the end of the
text. -/
theorem Expectation.message_eq {what : Expectation} {found : TokenKind}
    (h : ¬((what = .braceEnd ∨ what = .parenEnd) ∧ found.isEnd = true)) :
    ∃ lead, BeginsWith lead "Expected " ∧ what.message found = lead ++ found.displayName := by
  cases what with
  | statementEnd => exact ⟨"Expected ';' after statement, found ", by decide, rfl⟩
  | blockStart => exact ⟨"Expected '\x7b' to start block, found ", by decide, rfl⟩
  | braceEnd =>
    have hfound : ¬found.isEnd = true := fun he => h ⟨.inl rfl, he⟩
    exact ⟨"Expected '\x7d' to close block, found ", by decide, if_neg hfound⟩
  | parenEnd =>
    have hfound : ¬found.isEnd = true := fun he => h ⟨.inr rfl, he⟩
    exact ⟨"Expected ')', found ", by decide, if_neg hfound⟩
  | colon => exact ⟨"Expected ':', found ", by decide, rfl⟩
  | arrow => exact ⟨"Expected '=>', found ", by decide, rfl⟩
  | initializer => exact ⟨"Expected '=', found ", by decide, rfl⟩
  | name => exact ⟨"Expected name, found ", by decide, rfl⟩
  | member => exact ⟨"Expected name, found ", by decide, rfl⟩
  | propertyName => exact ⟨"Expected property name, found ", by decide, rfl⟩
  | expression => exact ⟨"Expected expression, found ", by decide, rfl⟩

/-- The wording of a message of the grammar: it reads like none of the lexer, and tells the code and the label of its
fault. -/
def ParseFault.IsWorded (fault : ParseFault) : Prop :=
  lexicalWording? fault.message = none ∧ grammarWording fault.message = (fault.code, fault.label)

/-- A bracket that is open at the end of the text is unbalanced. -/
theorem isWorded_unclosed {what : Expectation} {found : TokenKind} (hwhat : what = .braceEnd ∨ what = .parenEnd)
    (hfound : found.isEnd = true) : (ParseFault.expected what found).IsWorded := by
  obtain rfl := TokenKind.isEnd_iff.1 hfound
  rcases hwhat with rfl | rfl
  · exact (by decide : lexicalWording? "Unclosed '\x7b' - missing '\x7d'" = none ∧
      grammarWording "Unclosed '\x7b' - missing '\x7d'" = ("E0103", "unbalanced"))
  · exact (by decide : lexicalWording? "Unclosed '(' - missing ')'" = none ∧
      grammarWording "Unclosed '(' - missing ')'" = ("E0103", "unbalanced"))

/-- Every other token that is not what was expected is unexpected. -/
theorem isWorded_unexpected {what : Expectation} {found : TokenKind}
    (h : ¬((what = .braceEnd ∨ what = .parenEnd) ∧ found.isEnd = true)) :
    (ParseFault.expected what found).IsWorded := by
  have hcode : (ParseFault.expected what found).code = "E0100" ∧ (ParseFault.expected what found).label = "here" := by
    cases what with
    | braceEnd =>
      have hfound : ¬found.isEnd = true := fun he => h ⟨.inl rfl, he⟩
      exact ⟨if_neg hfound, if_neg hfound⟩
    | parenEnd =>
      have hfound : ¬found.isEnd = true := fun he => h ⟨.inr rfl, he⟩
      exact ⟨if_neg hfound, if_neg hfound⟩
    | _ => exact ⟨rfl, rfl⟩
  obtain ⟨lead, hlead, hwords⟩ := Expectation.message_eq h
  have hmessage : (ParseFault.expected what found).message = lead ++ found.displayName := hwords
  have hbegins : BeginsWith (lead ++ found.displayName) "Expected " := beginsWith_append hlead
  have hhead := head?_of_beginsWith hbegins (c := 'E') (by decide)
  obtain ⟨c, hlast, hc⟩ := found.getLast?_displayName
  have hdeep : lead ++ found.displayName ≠ "Expression nested too deeply" := ne_of_beginsWith hbegins (by decide)
  refine ⟨?_, ?_⟩
  · rw [hmessage]
    exact lexicalWording?_eq_none hhead (by decide) (by decide)
  · rw [hmessage, hcode.1, hcode.2]
    exact grammarWording_eq_other hhead (by decide) (not_endsWith_of_getLast? (getLast?_append_of_some hlast) hc) hdeep

/-- Whatever the name of a parameter is, it stands between the words and a quote. -/
theorem isWorded_duplicateParameter (name : String) : (ParseFault.duplicateParameter name).IsWorded := by
  have hmessage : (ParseFault.duplicateParameter name).message = "Duplicate parameter '" ++ name ++ "'" := rfl
  have hbegins : BeginsWith ("Duplicate parameter '" ++ name ++ "'") "Duplicate parameter" :=
    beginsWith_append (beginsWith_append (by decide))
  have hhead := head?_of_beginsWith hbegins (c := 'D') (by decide)
  have hends : ¬EndsWith ("Duplicate parameter '" ++ name ++ "'") "must start a statement" :=
    not_endsWith_of_getLast? (getLast?_append_of_some (c := '\'') (by decide)) (by decide)
  have htarget : "Duplicate parameter '" ++ name ++ "'" ≠ "Invalid assignment target" :=
    ne_of_beginsWith hbegins (by decide)
  have hbracket {lead : String} (hlead : lead.toList.head? = some 'U') :
      ¬BeginsWith ("Duplicate parameter '" ++ name ++ "'") lead :=
    not_beginsWith_of_head? hhead hlead (by decide)
  refine ⟨?_, ?_⟩
  · rw [hmessage]
    exact lexicalWording?_eq_none hhead (by decide) (by decide)
  · rw [hmessage, grammarWording, if_neg htarget, if_neg hends,
      if_neg (not_or.2 ⟨hbracket (by decide), hbracket (by decide)⟩), if_pos hbegins]
    rfl

theorem isWorded_builder (fault : BuilderFault) : (ParseFault.broken (.builder fault)).IsWorded := by
  have hquoted (op : OperatorKind) (words : String) (c : Char) (hwords : words.toList.getLast? = some c)
      (hc : c ≠ 't') :
      lexicalWording? (op.quoted ++ words) = none ∧ grammarWording (op.quoted ++ words) = ("E0100", "here") := by
    have hbegins : BeginsWith (op.quoted ++ words) "`" :=
      beginsWith_append (beginsWith_append (beginsWith_append List.prefix_rfl))
    have hhead := head?_of_beginsWith hbegins (c := '`') (by decide)
    have hdeep : op.quoted ++ words ≠ "Expression nested too deeply" := ne_of_beginsWith hbegins (by decide)
    exact ⟨lexicalWording?_eq_none hhead (by decide) (by decide),
      grammarWording_eq_other hhead (by decide) (not_endsWith_of_getLast? (getLast?_append_of_some hwords) hc) hdeep⟩
  cases fault with
  | notBinary op => exact hquoted op " is not a binary operator" 'r' (by decide) (by decide)
  | needsTwo op => exact hquoted op " needs two operands" 's' (by decide) (by decide)
  | notPostfix op => exact hquoted op " cannot be used as a postfix operator" 'r' (by decide) (by decide)

/-- A breach names an operator in quotes, or says that no token is left. -/
theorem isWorded_broken (breach : Breach) : (ParseFault.broken breach).IsWorded := by
  cases breach with
  | pastTokens =>
    exact (by decide : lexicalWording? "no token is left" = none ∧
      grammarWording "no token is left" = ("E0100", "here"))
  | builder fault => exact isWorded_builder fault

theorem ParseFault.isWorded {fault : ParseFault} (h : ∀ f, fault ≠ .lexical f) : fault.IsWorded := by
  cases fault with
  | lexical f => exact absurd rfl (h f)
  | expected what found =>
    by_cases hopen : (what = .braceEnd ∨ what = .parenEnd) ∧ found.isEnd = true
    · exact isWorded_unclosed hopen.1 hopen.2
    · exact isWorded_unexpected hopen
  | duplicateParameter name => exact isWorded_duplicateParameter name
  | broken breach => exact isWorded_broken breach
  | nestedTooDeeply => exact ⟨by decide, by decide⟩
  | unmatchedBrace => exact ⟨by decide, by decide⟩
  | invalidTarget => exact ⟨by decide, by decide⟩
  | misplacedReturn => exact ⟨by decide, by decide⟩
  | misplacedLet => exact ⟨by decide, by decide⟩
  | invalidNegation => exact ⟨by decide, by decide⟩

/-! ## Diagnostics -/

theorem LexError.toDiagnostic_eq_told (e : LexError) : e.toDiagnostic = e.toldDiagnostic := by
  unfold LexError.toDiagnostic LexError.toldDiagnostic
  rw [lexicalWording?_message]
  rfl

theorem ParseError.toDiagnostic_eq_told (e : ParseError) : e.toDiagnostic = e.toldDiagnostic := by
  obtain ⟨fault, span⟩ := e
  by_cases h : ∃ f, fault = .lexical f
  · obtain ⟨f, rfl⟩ := h
    unfold ParseError.toDiagnostic ParseError.toldDiagnostic
    dsimp only [ParseFault.message]
    rw [lexicalWording?_message]
    rfl
  · obtain ⟨hlexical, hgrammar⟩ := ParseFault.isWorded (not_exists.1 h)
    unfold ParseError.toDiagnostic ParseError.toldDiagnostic
    dsimp only
    rw [hlexical, hgrammar]
    rfl

/-- The codes of what can be wrong with characters. -/
def lexicalCodes : List String := ["E0001", "E0002", "E0003", "E0004", "E0005"]

/-- The codes of what can be wrong with tokens. -/
def grammarCodes : List String := ["E0100", "E0101", "E0102", "E0103", "E0104", "E0105", "E0106"]

theorem LexFault.code_mem (fault : LexFault) : fault.code ∈ lexicalCodes := by
  cases fault <;> simp [LexFault.code, lexicalCodes]

theorem ParseFault.code_mem {fault : ParseFault} (h : ∀ f, fault ≠ .lexical f) : fault.code ∈ grammarCodes := by
  cases fault with
  | lexical f => exact absurd rfl (h f)
  | expected what found =>
    cases what <;> simp only [ParseFault.code] <;> first | split <;> decide | decide
  | _ => simp [ParseFault.code, grammarCodes]

/-- All of these are codes of the syntax. -/
theorem find?_syntactic : ∀ code ∈ lexicalCodes ++ grammarCodes,
    ∃ entry, ErrorCode.find? code = some entry ∧ entry.category = .syntactic := by
  have hall : (lexicalCodes ++ grammarCodes).all
      (fun code => (ErrorCode.find? code).any fun entry => entry.category = .syntactic) = true := by decide
  intro code hcode
  simpa [Option.any_eq_true] using List.all_eq_true.1 hall code hcode

/-! ## Scripts -/

/-- How the first fault of a source is reported, by the lexer and by the reader of whole scripts. -/
structure ReportsFirstFault (source : List Char) : Prop where
  /-- A script fails where its first error of the lexer starts, and the diagnostic is that of this error. -/
  lexical : ∀ first rest, (tokenize source).errors = first :: rest →
    ∃ e, parse source = .error e ∧ e.position = (LineMap.ofChars source).position first.span.start ∧
      e.toDiagnostic = first.toDiagnostic ∧ ∃ code ∈ lexicalCodes, e.toDiagnostic.code = some code
  /-- Where the lexer finds nothing, the code is one of the grammar. -/
  grammatical : (tokenize source).errors = [] → ∀ e, parse source = .error e →
    ∃ code ∈ grammarCodes, e.toDiagnostic.code = some code ∧ code ∉ lexicalCodes
  /-- Both are codes of the syntax. -/
  registered : ∀ e, parse source = .error e → ∃ code entry, e.toDiagnostic.code = some code ∧
    ErrorCode.find? code = some entry ∧ entry.category = .syntactic
  /-- The codes and the labels are those that the wording tells. -/
  told : (∀ e ∈ (tokenize source).errors, e.toDiagnostic = e.toldDiagnostic) ∧
    ∀ e, parse source = .error e → e.toDiagnostic = e.toldDiagnostic

/-- An error of a script whose tokens are in order is one of the grammar. -/
theorem grammatical_of_parse {source : List Char} {e : LocatedError} (h : parse source = .error e)
    (hclean : (tokenize source).errors = []) (fault : LexFault) : e.fault ≠ .lexical fault := by
  unfold parse at h
  simp only [hclean] at h
  cases hx : parseTokens (tokenize source).tokens with
  | ok p =>
    rw [hx] at h
    cases h
  | error e' =>
    rw [hx] at h
    cases h
    exact grammatical_of_parseTokens hx fault

/-- The first fault of a script is reported alike by the lexer and by the reader of whole scripts, and its diagnostic is
the one that its wording tells. -/
theorem first_fault_reported_alike (source : List Char) : ReportsFirstFault source where
  lexical first rest hfirst := by
    refine ⟨first.toParseError.locate source, ?_, rfl, rfl, first.fault.code, first.fault.code_mem, rfl⟩
    unfold parse
    simp only [hfirst]
  grammatical hclean e he := by
    have hcode := ParseFault.code_mem (grammatical_of_parse he hclean)
    have hdisjoint : ∀ code ∈ grammarCodes, code ∉ lexicalCodes := by decide
    exact ⟨_, hcode, rfl, hdisjoint _ hcode⟩
  registered e he := by
    have hcode : e.fault.code ∈ lexicalCodes ++ grammarCodes := by
      by_cases h : ∃ f, e.fault = .lexical f
      · obtain ⟨f, hf⟩ := h
        rw [hf]
        exact List.mem_append_left _ f.code_mem
      · exact List.mem_append_right _ (ParseFault.code_mem (not_exists.1 h))
    obtain ⟨entry, hentry, hcategory⟩ := find?_syntactic _ hcode
    exact ⟨_, entry, rfl, hentry, hcategory⟩
  told := ⟨fun e _ => e.toDiagnostic_eq_told, fun e _ => e.toParseError.toDiagnostic_eq_told⟩

end GameScript
