import ReactiveTemplate.Clock.Script
import ReactiveTemplate.Command.Directory
import ReactiveTemplate.Main
import ReactiveTemplate.Proofs.Document.Links
import ReactiveTemplate.Proofs.Document.Slots
import ReactiveTemplate.Proofs.Document.WellFormed
import ReactiveTemplate.Proofs.Document.Trees
import ReactiveTemplate.Proofs.Document.Removal
import ReactiveTemplate.Proofs.Document.Counting
import ReactiveTemplate.Proofs.Document.Growth
import ReactiveTemplate.Proofs.Document.Reseating
import ReactiveTemplate.Proofs.Document.Listeners
import ReactiveTemplate.Proofs.Document.Reachable
import ReactiveTemplate.Proofs.Markup.Entities
import ReactiveTemplate.Proofs.Markup.Readers
import ReactiveTemplate.Proofs.Markup.RoundTrip
import ReactiveTemplate.Proofs.Render.Dressing
import ReactiveTemplate.Proofs.Render.Refinement
import ReactiveTemplate.Proofs.Render.Keeping
import ReactiveTemplate.Proofs.Render.Leaving
import ReactiveTemplate.Proofs.Expression.Parsing
import ReactiveTemplate.Proofs.Clock.Running
import ReactiveTemplate.Proofs.Clock.Debounce
import ReactiveTemplate.Proofs.Component.Mounting
import ReactiveTemplate.Proofs.Component.Writing
import ReactiveTemplate.Proofs.Component.Skipping
import ReactiveTemplate.Proofs.Page.Calm
import ReactiveTemplate.Proofs.Page.Consistency
import ReactiveTemplate.Proofs.Page.Steady
import ReactiveTemplate.Proofs.Page.Rendering
import ReactiveTemplate.Proofs.Page.Frame
import ReactiveTemplate.Proofs.Clock.Firings
import ReactiveTemplate.Proofs.Document.Refusal
import ReactiveTemplate.Proofs.Clock.Nesting
import ReactiveTemplate.Proofs.Page.Building
import ReactiveTemplate.Proofs.Document.Histories
import ReactiveTemplate.Proofs.Page.Histories
import ReactiveTemplate.Proofs.Expression.Printing
import ReactiveTemplate.Proofs.Template.Caching
import ReactiveTemplate.Proofs.Directive.Mappings
import ReactiveTemplate.Proofs.Directive.Actions
import ReactiveTemplate.Proofs.Page.Validation
import ReactiveTemplate.Proofs.Page.KeptErrors
import ReactiveTemplate.Proofs.Document.Replacing
import ReactiveTemplate.Proofs.Expression.Equality
import ReactiveTemplate.Proofs.Expression.Evaluation
import ReactiveTemplate.Proofs.Render.Outlines
import ReactiveTemplate.Proofs.Page.Acting
import ReactiveTemplate.Proofs.Page.Origins
import ReactiveTemplate.Proofs.Page.Dispatching
import ReactiveTemplate.Proofs.Expression.Members
import ReactiveTemplate.Proofs.Expression.Placing
import ReactiveTemplate.Proofs.Expression.Scanning
import ReactiveTemplate.Proofs.Clock.Splitting
import ReactiveTemplate.Proofs.Clock.Idling
import ReactiveTemplate.Proofs.Json.Numerals
import ReactiveTemplate.Proofs.Expression.Literals
import ReactiveTemplate.Proofs.Template.Interpolations
import ReactiveTemplate.Proofs.Markup.Prefixes
import ReactiveTemplate.Proofs.Template.Errors
import ReactiveTemplate.Proofs.Decimal.Wholes
import ReactiveTemplate.Proofs.Expression.Comparing
import ReactiveTemplate.Proofs.Component.Rounding
import ReactiveTemplate.Proofs.Markup.Tags
import ReactiveTemplate.Proofs.Document.Contents
import ReactiveTemplate.Proofs.Text.Words
import ReactiveTemplate.Proofs.Document.Classes
import ReactiveTemplate.Proofs.Render.Classes
import ReactiveTemplate.Proofs.Document.Searching
import ReactiveTemplate.Proofs.Markup.Decoding
import ReactiveTemplate.Proofs.Document.Freeing
import ReactiveTemplate.Proofs.Page.Bubbling
import ReactiveTemplate.Proofs.Clock.Clearing
import ReactiveTemplate.Proofs.Page.Absorbing
