import TypedComponent.Edit.Buffer
import TypedComponent.Markup.Tree

/-!
The markup of a component as an expression: a fragment in empty tags. Markup
stays as it is written, except for comments, which no expression may hold.
-/

namespace TypedComponent.Component

open Markup (Document Node)

/-- A way to turn markup into an expression by edits of the source. The edits
must put the markup into a fragment and leave scripts and styles alone. -/
abbrev MarkupConverter := Document → List Edit

/-- Puts the markup into a fragment and cuts its comments out. -/
def fragmentConverter : MarkupConverter := fun document =>
  .prepend "<>".toList ::
    (document.allNodes.filter Node.isComment).map (fun comment => .remove comment.span) ++
    [.append "</>".toList]

end TypedComponent.Component
