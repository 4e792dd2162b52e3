/-
The standard catalogue: widgets under flat dotted names.

Layouts, decorators, frames and metal surfaces take the type of their widgets as
a parameter; a magnet and the metal surface it sits on name each other.
-/
import WidgetSchema.Catalogue.Basic

set_option autoImplicit false

namespace WidgetSchema.Catalogue

/-- Widgets under flat dotted names, generic in the widgets they hold. -/
def standard : Catalogue where
  name := "std"
  description := "Flat dotted tables with generic widget parameters"
  table := Entry.keyed
    [("UI.Pixel", .ofStruct [] none
        [("height", "number"), ("width", "number")]),
     ("UI.Resolution", .ofStruct [] none
        [("colorDepth", "number"), ("pixel", "UI.Pixel"), ("effective", "UI.Pixel")]),
     ("UI.Length", .ofStruct [] none
        [("n", "number"), ("u", "\"ch\"_\"em\"_\"ex\"_\"px\"_\"rem\"")]),
     ("UI.Size", .ofText "UI.Length|number"),
     ("UI.Sizeable", .ofStruct [] none
        [("height", "UI.Size?"), ("width", "UI.Size?")]),
     ("UI.Flow.Direction", .ofText "\"rowReverse\"_\"column\"_\"columnReverse\""),
     ("UI.Flow.Cut", .ofText "\"never\"_\"reverse\""),
     ("UI.Flow.Justification", .ofText "\"opposite\"_\"center\"_\"between\"_\"around\""),
     ("UI.Flow.Alignment", .ofText "\"stretch\"|UI.Flow.ItemAlignment"),
     ("UI.Flow.ItemAlignment", .ofText "\"start\"_\"end\"_\"center\"_\"baseline\""),
     ("UI.Flow.ContentAlignment", .ofText "\"start\"_\"end\"_\"center\"_\"between\"_\"around\""),
     ("UI.Event.Click", .emptyStruct),
     ("UI.Event.Keyboard", .emptyStruct),
     ("UI.Event.Mouse", .emptyStruct),
     ("UI.Event.Touch", .emptyStruct),
     ("UI.Widget", .ofStruct [] none
        [("hidden", "Flag"), ("status", "Text?"), ("index", "number?")]),
     ("UI.Layout", .ofStruct ["W=UI.Widget"] (some "UI.Widget")
        [("widgets", "Maybe([W]|<W>)")]),
     ("UI.Decorator", .ofStruct ["W=UI.Widget"] (some "UI.Widget")
        [("subject", "W?")]),
     ("UI.Input", .ofStruct [] (some "UI.Widget")
        [("disabled", "Flag"), ("unchained", "Flag"),
          ("focused", "boolean @event=client @delay=forever"),
          ("pressed", "UI.Event.Keyboard @event=client @delay=forever"),
          ("focus", "boolean @event=server")]),
     ("UI.Output", .ofStruct [] (some "UI.Widget")
        [("symbol", "string?")]),
     ("UI.Frame", .ofStruct ["W=UI.Widget"] (some "UI.Decorator(W)+UI.Sizeable")
        []),
     ("UI.Metal", .ofStruct ["W=UI.Widget", "M=UI.Magnet"] (some "UI.Frame(W)+UI.Layout(M)")
        []),
     ("UI.Magnet", .ofStruct ["W=UI.Widget", "M=UI.Magnet"] (some "UI.Metal(W,M)")
        [("left", "UI.Size?"), ("top", "UI.Size?"), ("translationX", "UI.Size?"),
          ("translationY", "UI.Size?")]),
     ("UI.List", .ofStruct [] (some "UI.Layout(UI.Item)+UI.Sizeable")
        [("direction", "UI.Flow.Direction?"), ("cut", "UI.Flow.Cut?"),
          ("justification", "UI.Flow.Justification?"),
          ("itemAlignment", "UI.Flow.ItemAlignment?"),
          ("contentAlignment", "UI.Flow.ContentAlignment?")]),
     ("UI.Item", .ofStruct [] (some "UI.Decorator")
        [("grows", "number?"), ("shrinks", "number?"), ("basis", "number"),
          ("alignment", "UI.Flow.Alignment?")]),
     ("UI.Text", .ofStruct [] (some "UI.Output")
        [("content", "Text?")]),
     ("UI.Image", .ofStruct [] (some "UI.Output")
        [("asset", "string?")]),
     ("UI.Icon", .ofStruct [] (some "UI.Image+UI.Text")
        [("direction", "UI.Flow.Direction?")]),
     ("UI.Scroll", .ofStruct [] (some "UI.Input+UI.Frame")
        [("scrollX", "number? @data=both @delay=flush"),
          ("scrollY", "number? @data=both @delay=flush")]),
     ("UI.Button", .ofStruct [] (some "UI.Input+UI.Decorator")
        [("click", "UI.Event.Click? @event=client @delay=forever")]),
     ("UI.Selection", .ofText "UI.Input+UI.Layout(UI.Choice)"),
     ("UI.Choice", .ofStruct [] (some "UI.Button")
        [("unchained", "none"), ("selected", "Flag")]),
     ("UI.RadioList", .ofStruct [] (some "UI.Selection")
        [("direction", "UI.Flow.Direction?")]),
     ("UI.CheckList", .ofStruct [] (some "UI.Selection")
        [("direction", "UI.Flow.Direction?")])]

end WidgetSchema.Catalogue
