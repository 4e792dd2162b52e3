/-
The published catalogue: the same widgets, grouped under common names.

Frames and metal surfaces are aliases that compose, so they take no parameters,
and the focus command of an input carries no value.
-/
import WidgetSchema.Catalogue.Basic

set_option autoImplicit false

namespace WidgetSchema.Catalogue

/-- Widgets grouped under common names, with frames composed by aliases. -/
def published : Catalogue where
  name := "pub"
  description := "Nested namespace tables with alias-composed frames"
  table := Entry.keyed
    [("UI", .group
      [("Pixel", .ofStruct [] none
          [("height", "number"), ("width", "number")]),
       ("Resolution", .ofStruct [] none
          [("colorDepth", "number"), ("pixel", "UI.Pixel"), ("effective", "UI.Pixel")]),
       ("Length", .ofStruct [] none
          [("n", "number"), ("u", "\"ch\"_\"em\"_\"ex\"_\"px\"_\"rem\"")]),
       ("Size", .ofText "UI.Length|number"),
       ("Sizeable", .ofStruct [] none
          [("height", "UI.Size?"), ("width", "UI.Size?")]),
       ("Flow", .group
        [("Direction", .ofText "\"rowReverse\"_\"column\"_\"columnReverse\""),
         ("Cut", .ofText "\"never\"_\"reverse\""),
         ("Justification", .ofText "\"opposite\"_\"center\"_\"between\"_\"around\""),
         ("Alignment", .ofText "\"stretch\"|UI.Flow.ItemAlignment"),
         ("ItemAlignment", .ofText "\"start\"_\"end\"_\"center\"_\"baseline\""),
         ("ContentAlignment", .ofText "\"start\"_\"end\"_\"center\"_\"between\"_\"around\"")]),
       ("Event", .group
        [("Click", .emptyStruct),
         ("Keyboard", .emptyStruct),
         ("Mouse", .emptyStruct),
         ("Touch", .emptyStruct)]),
       ("Widget", .ofStruct [] none
          [("hidden", "Flag"), ("status", "Text?"), ("index", "number?")]),
       ("Layout", .ofStruct ["T=UI.Widget"] (some "UI.Widget")
          [("widgets", "Maybe([T]|<T>)")]),
       ("Decorator", .ofStruct ["T=UI.Widget"] (some "UI.Widget")
          [("subject", "T?")]),
       ("Input", .ofStruct [] (some "UI.Widget")
          [("disabled", "Flag"), ("unchained", "Flag"),
            ("focused", "boolean @event=client @delay=forever"),
            ("pressed", "UI.Event.Keyboard @event=client @delay=forever"),
            ("focus", "none @event=server")]),
       ("Output", .ofStruct [] (some "UI.Widget")
          [("symbol", "string?")]),
       ("Frame", .ofText "UI.Decorator+UI.Sizeable"),
       ("Metal", .ofText "UI.Frame+UI.Layout(UI.Magnet)"),
       ("Magnet", .ofStruct [] (some "UI.Metal")
          [("left", "UI.Size?"), ("top", "UI.Size?"), ("translationX", "UI.Size?"),
            ("translationY", "UI.Size?")]),
       ("List", .ofStruct [] (some "UI.Layout(UI.Item)+UI.Sizeable")
          [("direction", "UI.Flow.Direction?"), ("cut", "UI.Flow.Cut?"),
            ("justification", "UI.Flow.Justification?"),
            ("itemAlignment", "UI.Flow.ItemAlignment?"),
            ("contentAlignment", "UI.Flow.ContentAlignment?")]),
       ("Item", .ofStruct [] (some "UI.Decorator")
          [("grows", "number?"), ("shrinks", "number?"), ("basis", "number"),
            ("alignment", "UI.Flow.Alignment?")]),
       ("Text", .ofStruct [] (some "UI.Output")
          [("content", "Text?")]),
       ("Image", .ofStruct [] (some "UI.Output")
          [("asset", "string?")]),
       ("Icon", .ofStruct [] (some "UI.Image+UI.Text")
          [("direction", "UI.Flow.Direction?")]),
       ("Scroll", .ofStruct [] (some "UI.Input+UI.Frame")
          [("scrollX", "number? @data=both @delay=flush"),
            ("scrollY", "number? @data=both @delay=flush")]),
       ("Button", .ofStruct [] (some "UI.Input+UI.Decorator")
          [("click", "UI.Event.Click? @event=client @delay=forever")]),
       ("Selection", .ofText "UI.Input+UI.Layout(UI.Choice)"),
       ("Choice", .ofStruct [] (some "UI.Button")
          [("unchained", "none"), ("selected", "Flag")]),
       ("RadioList", .ofStruct [] (some "UI.Selection")
          [("direction", "UI.Flow.Direction?")]),
       ("CheckList", .ofStruct [] (some "UI.Selection")
          [("direction", "UI.Flow.Direction?")])])]

end WidgetSchema.Catalogue
