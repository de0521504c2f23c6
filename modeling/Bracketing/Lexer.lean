import Bracketing.Token.Scan

namespace Bracketing

structure Lexer where
  text : String
  deriving DecidableEq

namespace Lexer

instance : Inhabited Lexer := ⟨⟨""⟩⟩

def retarget (_ : Lexer) (text : String) : Lexer := ⟨text⟩

def tokens (lexer : Lexer) : List Token := Token.ofText lexer.text

@[simp] theorem tokens_retarget (lexer : Lexer) (text : String) :
    (lexer.retarget text).tokens = Token.ofText text := rfl

end Lexer

end Bracketing
