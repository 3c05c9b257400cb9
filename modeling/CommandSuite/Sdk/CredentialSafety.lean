import Mathlib.Data.List.Basic

/-! # Plaintext bearer tokens

`BEARER_TOKEN_PATTERN` of `packages/sdk/src/credential-safety.ts`: the word `csuite_` and 43
token characters, delimited on both sides.
-/

namespace CommandSuite

/-- `[A-Za-z0-9_-]`. -/
def isTokenCharacter (c : Char) : Bool := c.isAlphanum || c == '_' || c == '-'

def bearerTokenAt (text : List Char) : Bool :=
  let start := "csuite_".toList
  let rest := text.drop start.length
  start.isPrefixOf text && (rest.take 43).length = 43 && (rest.take 43).all isTokenCharacter &&
    (rest.drop 43).head?.all fun c => !isTokenCharacter c

def searchBearerToken : Bool → List Char → Bool
  | _, [] => false
  | delimited, c :: rest =>
    delimited && bearerTokenAt (c :: rest) || searchBearerToken (!isTokenCharacter c) rest

def containsBearerToken (text : String) : Bool := searchBearerToken true text.toList

end CommandSuite
