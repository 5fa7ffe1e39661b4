import PascalCasl.Grammar.Cursor

/-!
The grammar of the Pascal subset as derivations. A phrase relates a list of
tokens to the tree it stands for; the tokens of a phrase are the tokens of its
parts in order. Operator tables are written out here and owe nothing to the
readers.
-/

namespace PascalCasl.Grammar

inductive RelationMark : Kind → BinaryOp → Prop
  | equal : RelationMark .equal .equal
  | notEqual : RelationMark .notEqual .notEqual
  | less : RelationMark .less .less
  | lessEqual : RelationMark .lessEqual .lessEqual
  | greater : RelationMark .greater .greater
  | greaterEqual : RelationMark .greaterEqual .greaterEqual

inductive SumMark : Kind → BinaryOp → Prop
  | plus : SumMark .plus .add
  | minus : SumMark .minus .sub
  | orWord : SumMark .orWord .or

inductive ProductMark : Kind → BinaryOp → Prop
  | star : ProductMark .star .mul
  | divWord : ProductMark .divWord .div
  | modWord : ProductMark .modWord .mod
  | andWord : ProductMark .andWord .and

inductive SignMark : Kind → UnaryOp → Prop
  | plus : SignMark .plus .plus
  | minus : SignMark .minus .minus

inductive StandardTypeWord : Kind → StandardType → Prop
  | integer : StandardTypeWord .integerWord .integer
  | char : StandardTypeWord .charWord .char
  | boolean : StandardTypeWord .booleanWord .boolean

/-- A nonempty run of digits and its value, which stops growing at the limit. -/
def Numeral (text : String) (value : Nat) : Prop :=
  text.toList ≠ [] ∧ (∀ c ∈ text.toList, c.isDigit = true) ∧
    value = min Text.literalLimit (Nat.ofDigitChars 10 text.toList 0)

/-- A text between two quotes, with the pairs of quotes inside it folded. -/
def QuotedText (text content : String) : Prop :=
  ∃ inner, text.toList = Text.quoteMark :: (inner ++ [Text.quoteMark]) ∧
    content = String.ofList (Text.foldQuotes inner)

inductive Level where
  | factor | term | simple | expr

/-- Expressions. Chains are derived from the left, so the left operand of the
last operator holds the rest of the chain. -/
inductive ExprPhrase : Level → List Token → Expr → Prop
  | name (name : Token) (isName : name.kind = .identifier) :
      ExprPhrase .factor [name] (.simple name.line name.text)
  | element (name opening closing : Token) (inner : List Token) (index : Expr)
      (isName : name.kind = .identifier) (opens : opening.kind = .leftBracket)
      (within : ExprPhrase .expr inner index) (closes : closing.kind = .rightBracket) :
      ExprPhrase .factor (name :: opening :: (inner ++ [closing]))
        (.indexed name.line name.text index)
  | parenthesised (opening closing : Token) (inner : List Token) (tree : Expr)
      (opens : opening.kind = .leftParen) (within : ExprPhrase .expr inner tree)
      (closes : closing.kind = .rightParen) :
      ExprPhrase .factor (opening :: (inner ++ [closing])) tree
  | negation (word : Token) (operand : List Token) (tree : Expr) (isNot : word.kind = .notWord)
      (applied : ExprPhrase .factor operand tree) :
      ExprPhrase .factor (word :: operand) (.unary word.line .not tree)
  | number (numeral : Token) (value : Nat) (isConstant : numeral.kind = .constant)
      (valued : Numeral numeral.text value) :
      ExprPhrase .factor [numeral] (.number numeral.line value)
  | string (literal : Token) (content : String) (isString : literal.kind = .string)
      (valued : QuotedText literal.text content) :
      ExprPhrase .factor [literal] (.string literal.line content)
  | trueValue (word : Token) (isTrue : word.kind = .trueWord) :
      ExprPhrase .factor [word] (.truth word.line true)
  | falseValue (word : Token) (isFalse : word.kind = .falseWord) :
      ExprPhrase .factor [word] (.truth word.line false)
  | ofFactor (tokens : List Token) (tree : Expr) (factor : ExprPhrase .factor tokens tree) :
      ExprPhrase .term tokens tree
  | product (left right : List Token) (mark : Token) (op : BinaryOp) (leftTree rightTree : Expr)
      (chain : ExprPhrase .term left leftTree) (marked : ProductMark mark.kind op)
      (last : ExprPhrase .factor right rightTree) :
      ExprPhrase .term (left ++ mark :: right) (.binary mark.line op leftTree rightTree)
  | ofTerm (tokens : List Token) (tree : Expr) (term : ExprPhrase .term tokens tree) :
      ExprPhrase .simple tokens tree
  | signed (sign : Token) (op : UnaryOp) (tokens : List Token) (tree : Expr)
      (marked : SignMark sign.kind op) (term : ExprPhrase .term tokens tree) :
      ExprPhrase .simple (sign :: tokens) (.unary sign.line op tree)
  | sum (left right : List Token) (mark : Token) (op : BinaryOp) (leftTree rightTree : Expr)
      (chain : ExprPhrase .simple left leftTree) (marked : SumMark mark.kind op)
      (last : ExprPhrase .term right rightTree) :
      ExprPhrase .simple (left ++ mark :: right) (.binary mark.line op leftTree rightTree)
  | ofSimple (tokens : List Token) (tree : Expr) (simple : ExprPhrase .simple tokens tree) :
      ExprPhrase .expr tokens tree
  | relation (left right : List Token) (mark : Token) (op : BinaryOp) (leftTree rightTree : Expr)
      (first : ExprPhrase .simple left leftTree) (marked : RelationMark mark.kind op)
      (second : ExprPhrase .simple right rightTree) :
      ExprPhrase .expr (left ++ mark :: right) (.binary mark.line op leftTree rightTree)

inductive TargetPhrase : List Token → Target → Prop
  | name (name : Token) (isName : name.kind = .identifier) :
      TargetPhrase [name] (.simple name.line name.text)
  | element (name opening closing : Token) (inner : List Token) (index : Expr)
      (isName : name.kind = .identifier) (opens : opening.kind = .leftBracket)
      (within : ExprPhrase .expr inner index) (closes : closing.kind = .rightBracket) :
      TargetPhrase (name :: opening :: (inner ++ [closing])) (.indexed name.line name.text index)

section Lists

variable {α : Type}

inductive Separated (separator : Kind) (item : List Token → α → Prop) :
    List Token → List α → Prop
  | one (tokens : List Token) (value : α) (only : item tokens value) :
      Separated separator item tokens [value]
  | more (tokens others : List Token) (mark : Token) (value : α) (values : List α)
      (first : item tokens value) (marked : mark.kind = separator)
      (rest : Separated separator item others values) :
      Separated separator item (tokens ++ mark :: others) (value :: values)

/-- A list in parentheses, or no token at all. -/
inductive Optional (list : List Token → List α → Prop) : List Token → List α → Prop
  | absent : Optional list [] []
  | present (opening closing : Token) (inner : List Token) (values : List α)
      (opens : opening.kind = .leftParen) (within : list inner values)
      (closes : closing.kind = .rightParen) :
      Optional list (opening :: (inner ++ [closing])) values

end Lists

mutual

inductive StmtPhrase : List Token → Stmt → Prop
  | assign (left right : List Token) (mark : Token) (assigned : Target) (value : Expr)
      (target : TargetPhrase left assigned) (marked : mark.kind = .assign)
      (source : ExprPhrase .expr right value) :
      StmtPhrase (left ++ mark :: right) (.assign mark.line assigned value)
  | call (name : Token) (tokens : List Token) (arguments : List Expr)
      (isName : name.kind = .identifier)
      (listed : Optional (Separated .comma (ExprPhrase .expr)) tokens arguments) :
      StmtPhrase (name :: tokens) (.call name.line name.text arguments)
  | ifThen (ifWord thenWord : Token) (test thenTokens : List Token) (condition : Expr)
      (thenLine : Nat) (thenBody : List Stmt) (isIf : ifWord.kind = .ifWord)
      (tested : ExprPhrase .expr test condition) (isThen : thenWord.kind = .thenWord)
      (thenBlock : BlockPhrase thenTokens thenLine thenBody) :
      StmtPhrase (ifWord :: (test ++ thenWord :: thenTokens))
        (.ifThen ifWord.line condition thenLine thenBody)
  | ifElse (ifWord thenWord elseWord : Token) (test thenTokens elseTokens : List Token)
      (condition : Expr) (thenLine : Nat) (thenBody : List Stmt) (elseLine : Nat)
      (elseBody : List Stmt) (isIf : ifWord.kind = .ifWord)
      (tested : ExprPhrase .expr test condition) (isThen : thenWord.kind = .thenWord)
      (thenBlock : BlockPhrase thenTokens thenLine thenBody) (isElse : elseWord.kind = .elseWord)
      (elseBlock : BlockPhrase elseTokens elseLine elseBody) :
      StmtPhrase (ifWord :: (test ++ thenWord :: (thenTokens ++ elseWord :: elseTokens)))
        (.ifElse ifWord.line condition thenLine thenBody elseLine elseBody)
  | whileDo (whileWord doWord : Token) (test tokens : List Token) (condition : Expr)
      (bodyLine : Nat) (body : List Stmt) (isWhile : whileWord.kind = .whileWord)
      (tested : ExprPhrase .expr test condition) (isDo : doWord.kind = .doWord)
      (block : BlockPhrase tokens bodyLine body) :
      StmtPhrase (whileWord :: (test ++ doWord :: tokens))
        (.whileDo whileWord.line condition bodyLine body)
  | read (word : Token) (tokens : List Token) (targets : List Target)
      (isRead : word.kind = .readlnWord)
      (listed : Optional (Separated .comma TargetPhrase) tokens targets) :
      StmtPhrase (word :: tokens) (.read word.line targets)
  | write (word : Token) (tokens : List Token) (values : List Expr)
      (isWrite : word.kind = .writelnWord)
      (listed : Optional (Separated .comma (ExprPhrase .expr)) tokens values) :
      StmtPhrase (word :: tokens) (.write word.line values)
  | block (tokens : List Token) (line : Nat) (body : List Stmt)
      (block : BlockPhrase tokens line body) :
      StmtPhrase tokens (.block line body)

/-- A block with the line of its first word. -/
inductive BlockPhrase : List Token → Nat → List Stmt → Prop
  | block (beginWord endWord : Token) (tokens : List Token) (body : List Stmt)
      (isBegin : beginWord.kind = .beginWord) (within : StmtsPhrase tokens body)
      (isEnd : endWord.kind = .endWord) :
      BlockPhrase (beginWord :: (tokens ++ [endWord])) beginWord.line body

inductive StmtsPhrase : List Token → List Stmt → Prop
  | none : StmtsPhrase [] []
  | more (tokens others : List Token) (mark : Token) (first : Stmt) (rest : List Stmt)
      (statement : StmtPhrase tokens first) (ended : mark.kind = .semicolon)
      (statements : StmtsPhrase others rest) :
      StmtsPhrase (tokens ++ mark :: others) (first :: rest)

end

inductive BoundPhrase : List Token → Bound → Prop
  | unsigned (numeral : Token) (value : Nat) (isConstant : numeral.kind = .constant)
      (valued : Numeral numeral.text value) :
      BoundPhrase [numeral] ⟨false, value⟩
  | positive (sign numeral : Token) (value : Nat) (isPlus : sign.kind = .plus)
      (isConstant : numeral.kind = .constant) (valued : Numeral numeral.text value) :
      BoundPhrase [sign, numeral] ⟨false, value⟩
  | negative (sign numeral : Token) (value : Nat) (isMinus : sign.kind = .minus)
      (isConstant : numeral.kind = .constant) (valued : Numeral numeral.text value) :
      BoundPhrase [sign, numeral] ⟨true, value⟩

/-- A type with the line of its first word. -/
inductive TypePhrase : List Token → TypeSpec → Nat → Prop
  | standard (word : Token) (type : StandardType) (named : StandardTypeWord word.kind type) :
      TypePhrase [word] (.standard type) word.line
  | array (arrayWord opening range closing ofWord word : Token) (lowTokens highTokens : List Token)
      (low high : Bound) (element : StandardType) (isArray : arrayWord.kind = .arrayWord)
      (opens : opening.kind = .leftBracket) (lowest : BoundPhrase lowTokens low)
      (ranged : range.kind = .range) (highest : BoundPhrase highTokens high)
      (closes : closing.kind = .rightBracket) (isOf : ofWord.kind = .ofWord)
      (named : StandardTypeWord word.kind element) :
      TypePhrase (arrayWord :: opening :: (lowTokens ++ range :: (highTokens ++
        [closing, ofWord, word]))) (.array low high element) arrayWord.line

inductive NamePhrase : List Token → Token → Prop
  | name (name : Token) (isName : name.kind = .identifier) : NamePhrase [name] name

/-- One declarator for each name of the group. -/
inductive VarGroupPhrase : List Token → List VarDecl → Prop
  | group (nameTokens typeTokens : List Token) (colon semicolon : Token) (names : List Token)
      (type : TypeSpec) (typeLine : Nat) (listed : Separated .comma NamePhrase nameTokens names)
      (isColon : colon.kind = .colon) (typed : TypePhrase typeTokens type typeLine)
      (ended : semicolon.kind = .semicolon) :
      VarGroupPhrase (nameTokens ++ colon :: (typeTokens ++ [semicolon]))
        (names.map fun name => ⟨name.text, name.line, type, typeLine⟩)

inductive VarGroupsPhrase : List Token → List VarDecl → Prop
  | one (tokens : List Token) (group : List VarDecl) (only : VarGroupPhrase tokens group) :
      VarGroupsPhrase tokens group
  | more (tokens others : List Token) (group groups : List VarDecl)
      (first : VarGroupPhrase tokens group) (rest : VarGroupsPhrase others groups) :
      VarGroupsPhrase (tokens ++ others) (group ++ groups)

inductive VarsPhrase : List Token → List VarDecl → Prop
  | none : VarsPhrase [] []
  | declared (word : Token) (tokens : List Token) (vars : List VarDecl)
      (isVar : word.kind = .varWord) (groups : VarGroupsPhrase tokens vars) :
      VarsPhrase (word :: tokens) vars

inductive ParamGroupPhrase : List Token → List Param → Prop
  | group (nameTokens : List Token) (colon word : Token) (names : List Token)
      (type : StandardType) (listed : Separated .comma NamePhrase nameTokens names)
      (isColon : colon.kind = .colon) (named : StandardTypeWord word.kind type) :
      ParamGroupPhrase (nameTokens ++ [colon, word])
        (names.map fun name => ⟨name.text, name.line, type⟩)

inductive ProcedurePhrase : List Token → Procedure → Prop
  | procedure (word name semicolon : Token) (paramTokens varTokens blockTokens : List Token)
      (groups : List (List Param)) (vars : List VarDecl) (bodyLine : Nat) (body : List Stmt)
      (isProcedure : word.kind = .procedureWord) (isName : name.kind = .identifier)
      (params : Optional (Separated .semicolon ParamGroupPhrase) paramTokens groups)
      (ended : semicolon.kind = .semicolon) (locals : VarsPhrase varTokens vars)
      (block : BlockPhrase blockTokens bodyLine body) :
      ProcedurePhrase (word :: name :: (paramTokens ++ semicolon :: (varTokens ++ blockTokens)))
        ⟨name.text, name.line, groups.flatten, vars, bodyLine, body⟩

inductive ProceduresPhrase : List Token → List Procedure → Prop
  | none : ProceduresPhrase [] []
  | more (tokens others : List Token) (semicolon : Token) (first : Procedure)
      (rest : List Procedure) (declared : ProcedurePhrase tokens first)
      (ended : semicolon.kind = .semicolon) (procedures : ProceduresPhrase others rest) :
      ProceduresPhrase (tokens ++ semicolon :: others) (first :: rest)

inductive ProgramPhrase : List Token → Program → Prop
  | program (word name semicolon dot : Token) (varTokens procedureTokens blockTokens : List Token)
      (vars : List VarDecl) (procedures : List Procedure) (bodyLine : Nat) (body : List Stmt)
      (isProgram : word.kind = .programWord) (isName : name.kind = .identifier)
      (ended : semicolon.kind = .semicolon) (globals : VarsPhrase varTokens vars)
      (declared : ProceduresPhrase procedureTokens procedures)
      (block : BlockPhrase blockTokens bodyLine body) (isDot : dot.kind = .dot) :
      ProgramPhrase (word :: name :: semicolon ::
        (varTokens ++ (procedureTokens ++ (blockTokens ++ [dot]))))
        ⟨name.text, word.line, vars, procedures, bodyLine, body⟩

end PascalCasl.Grammar
