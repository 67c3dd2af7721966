import DesignTokens.Override.Merge
import DesignTokens.Resolution.OfTheme

/-!
The part of a theme that an override changes.

Of the theme's own tokens those stay that the override names and whose resolved value it changes. A
token of a context stays when the override names it, for the whole theme or for that context, and so
does the theme's token of the same name. What changes only through references is left out:
resolving on top of the full theme finds it again.
-/

namespace DesignTokens.Theme

/-- The tokens an override names for a context. -/
def namedFor (o : Override) (c : Context) : OrdMap Assignment :=
  ((c.id.text?.bind o.contexts.get?).join).getD .empty

/-- A token of a context that an override names, for the whole theme or for that context. -/
def isNamedIn (o : Override) (c : Context) (token : String) : Bool :=
  o.tokens.contains token || (namedFor o c).contains token

/-- The contexts with no more tokens than an override names. -/
def namedContexts (t : Theme) (o : Override) : OrdMap Context :=
  t.contexts.map fun c => { c with tokens := c.tokens.filter fun token _ => isNamedIn o c token }

/-- A token is assigned in one of the contexts. -/
def inSomeContext (contexts : OrdMap Context) (token : String) : Bool :=
  contexts.values.any fun c => c.tokens.contains token

/-- The theme cut down to what an override changes, together with the tokens whose change was
skipped, those of the cut theme before those of the full one. -/
def minimal (t : Theme) (o : Override) (options : ResolveOptions := {}) : Except Fault Merged := do
  t.contexts.values.forM fun c => discard c.id.lookupName?
  let full ← t.merged o
  let contexts := t.namedContexts o
  let kept := t.tokens.filter fun token _ =>
    inSomeContext contexts token || o.tokens.contains token
  let cut := ({ t with tokens := kept, contexts := contexts } : Theme).merge o
  let before ← t.resolve none options
  let changed := before.difference (← full.theme.resolve none options)
  let tokens := cut.theme.tokens.filter fun token _ =>
    changed.contains token || inSomeContext contexts token
  return ⟨{ cut.theme with tokens := tokens }, cut.skipped ++ full.skipped⟩

end DesignTokens.Theme
