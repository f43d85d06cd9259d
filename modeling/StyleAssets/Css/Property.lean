import StyleAssets.Text.Basic

/-!
# Properties

What is known of properties: their names, and what their value may be where it is a single word, a
colour or a url. Letters have no case in the names of known properties and in their words.

* `PropertyGroup` — properties that take the same values.
* `Css.propertyGroups` — all that is known.
* `Css.group?` — the group of a property.
-/

namespace StyleAssets.Css

/-- Properties that take the same values: words, some of them with a shorter one that is written for
them, and perhaps colours, urls or names that are not known. Those that are `lists` take several
values with commas between them. One of the prefixes may stand before the name of a property. -/
structure PropertyGroup where
  properties : List String
  prefixes : List String := []
  words : List String := []
  shorter : List (String × String) := []
  colours : Bool := false
  urls : Bool := false
  names : Bool := false
  lists : Bool := false
  deriving DecidableEq, Repr

namespace PropertyGroup

/-- Is a property without capitals one of the group? -/
def owns (g : PropertyGroup) (property : Text) : Bool :=
  ("" :: g.prefixes).any fun front =>
    front.toList.isPrefixOf property &&
      g.properties.any (·.toList == property.drop front.toList.length)

end PropertyGroup

/-! ## What is known -/

/-- Words that every property takes. None of them is a name. -/
def generalWords : List String :=
  ["initial", "inherit", "unset", "default", "revert", "revert-layer"]

def lineStyles : List String :=
  ["none", "hidden", "inset", "groove", "outset", "ridge", "dotted", "dashed", "solid", "double"]

def contentSizes : List String :=
  ["min-content", "max-content", "fit-content", "contain", "stretch", "-webkit-fill-available",
    "-moz-available", "-webkit-min-content", "-webkit-max-content", "-webkit-fit-content",
    "-moz-min-content", "-moz-max-content", "-moz-fit-content"]

def boxes : List String := ["border-box", "padding-box", "content-box"]

def sides : List String :=
  ["top", "right", "bottom", "left", "block-start", "block-end", "inline-start", "inline-end",
    "block", "inline"]

/-- A property for all sides, and one for each of them. -/
def sided (front back : String) : List String :=
  (front ++ back) :: sides.map fun side => front ++ "-" ++ side ++ back

def imageGroups : List PropertyGroup := [
  { properties := ["background"], colours := true, urls := true, lists := true
    words := ["no-repeat", "repeat-x", "repeat-y", "round", "space", "fixed", "local"]
    shorter := [("none", "0 0"), ("transparent", "0 0"), ("repeat", "0 0"), ("scroll", "0 0"),
      ("center", "50%"), ("right", "100%")] },
  { properties := ["background-image"], words := ["none"], urls := true, lists := true },
  { properties := ["mask", "mask-image"], prefixes := ["-webkit-"], words := ["none"], urls := true
    lists := true },
  { properties := ["filter", "backdrop-filter"], prefixes := ["-webkit-"], words := ["none"]
    urls := true },
  { properties := ["list-style-image", "border-image-source", "marker", "marker-start",
      "marker-mid", "marker-end", "mask-border-source", "mask-border", "-webkit-mask-box-image",
      "-webkit-mask-box-image-source"]
    words := ["none"], urls := true },
  { properties := ["border-image"], prefixes := ["-webkit-", "-moz-", "-o-"], words := ["none"]
    urls := true },
  { properties := ["clip-path"], prefixes := ["-webkit-"], urls := true
    words := "none" :: "margin-box" :: "fill-box" :: "stroke-box" :: "view-box" :: boxes },
  { properties := ["list-style"], words := ["none", "inside"], urls := true, names := true },
  { properties := ["fill", "stroke"], words := ["none", "context-fill", "context-stroke"]
    colours := true, urls := true }]

def colourGroups : List PropertyGroup := [
  { properties := ["color", "background-color", "outline-color"], colours := true },
  { properties := sided "border" "-color", colours := true },
  { properties := ["caret-color", "accent-color"], words := ["auto"], colours := true },
  { properties := ["text-decoration-color"], prefixes := ["-webkit-", "-moz-"], colours := true },
  { properties := ["text-emphasis-color"], prefixes := ["-webkit-"], colours := true },
  { properties := sided "border" "", words := "thin" :: "thick" :: lineStyles
    shorter := [("medium", "none"), ("currentcolor", "none")], colours := true },
  { properties := ["outline"], words := "auto" :: "thin" :: "thick" :: lineStyles
    shorter := [("medium", "none"), ("currentcolor", "none")], colours := true },
  { properties := sided "border" "-style", words := lineStyles },
  { properties := ["outline-style"], words := "auto" :: lineStyles },
  { properties := "outline-width" :: sided "border" "-width"
    words := ["thin", "medium", "thick"] }]

def backgroundGroups : List PropertyGroup := [
  { properties := ["background-repeat"], lists := true
    words := ["repeat", "repeat-x", "repeat-y", "space", "round", "no-repeat"] },
  { properties := ["mask-repeat"], prefixes := ["-webkit-"], lists := true
    words := ["repeat", "repeat-x", "repeat-y", "space", "round", "no-repeat"] },
  { properties := ["background-attachment"], lists := true, words := ["scroll", "fixed", "local"] },
  { properties := ["background-clip"], prefixes := ["-webkit-", "-moz-"], lists := true
    words := "border" :: "text" :: boxes },
  { properties := ["background-origin"], lists := true, words := boxes },
  { properties := ["mask-clip", "mask-origin"], prefixes := ["-webkit-"], lists := true
    words := "margin-box" :: "fill-box" :: "stroke-box" :: "view-box" :: "no-clip" :: boxes },
  { properties := ["background-size"], lists := true, words := ["auto", "cover", "contain"] },
  { properties := ["mask-size"], prefixes := ["-webkit-"]
    lists := true, words := ["auto", "cover", "contain"] },
  { properties := ["background-position"], lists := true
    shorter := [("center", "50%"), ("left", "0"), ("right", "100%")] },
  { properties := ["mask-position"], prefixes := ["-webkit-"], lists := true
    shorter := [("center", "50%"), ("left", "0"), ("right", "100%")] },
  { properties := ["background-position-x", "background-position-y", "mask-position-x",
      "mask-position-y"] },
  { properties := ["border-image-repeat"], words := ["stretch", "repeat", "round", "space"] },
  { properties := ["border-image-width"], words := ["auto"] },
  { properties := ["border-image-slice", "border-image-outset"] },
  { properties := ["mask-mode"], lists := true, words := ["luminance", "alpha", "match-source"] },
  { properties := ["mask-type", "mask-border-mode"], words := ["luminance", "alpha"] },
  { properties := ["mask-composite"]
    lists := true, words := ["add", "subtract", "intersect", "exclude"] },
  { properties := ["mask-border-slice", "mask-border-width", "mask-border-outset",
      "mask-border-repeat", "-webkit-mask-source-type", "-webkit-mask-box-image-slice",
      "-webkit-mask-box-image-width", "-webkit-mask-box-image-outset",
      "-webkit-mask-box-image-repeat"] },
  { properties := ["-webkit-mask-composite"], lists := true
    words := ["clear", "copy", "source-over", "source-in", "source-out", "source-atop",
      "destination-over", "destination-in", "destination-out", "destination-atop", "xor"] }]

def layoutGroups : List PropertyGroup := [
  { properties := ["display"], shorter := [("flow", "block")]
    words := ["none", "contents", "block", "inline", "run-in", "flow-root", "table", "flex", "grid",
      "ruby", "list-item", "inline-block", "inline-table", "inline-flex", "inline-grid",
      "table-row-group", "table-header-group", "table-footer-group", "table-row", "table-cell",
      "table-column-group", "table-column", "table-caption", "ruby-base", "ruby-text",
      "ruby-base-container", "ruby-text-container", "-webkit-box", "-moz-box", "-webkit-flex",
      "-ms-flexbox", "-webkit-inline-box", "-moz-inline-box", "-webkit-inline-flex",
      "-ms-inline-flexbox"] },
  { properties := ["visibility"], words := ["visible", "hidden", "collapse"] },
  { properties := ["width", "height", "block-size", "inline-size", "min-width", "min-height",
      "min-block-size", "min-inline-size"]
    words := "auto" :: contentSizes },
  { properties := ["max-width", "max-height", "max-block-size", "max-inline-size"]
    words := "none" :: contentSizes },
  { properties := ["box-sizing"], prefixes := ["-webkit-", "-moz-"]
    words := ["content-box", "border-box"] },
  { properties := ["overflow", "overflow-x", "overflow-y"]
    words := ["visible", "hidden", "clip", "scroll", "auto"] },
  { properties := ["text-overflow"], prefixes := ["-o-"], words := ["clip", "ellipsis"] },
  { properties := ["position"]
    words := ["static", "relative", "absolute", "fixed", "sticky", "-webkit-sticky"] },
  { properties := sides.take 4 ++ ["inset", "inset-block", "inset-block-start", "inset-block-end",
      "inset-inline", "inset-inline-start", "inset-inline-end", "aspect-ratio", "z-index",
      "-ms-flex-preferred-size"]
    words := ["auto"] },
  { properties := sided "margin" "" ++ sided "padding" "" ++ sided "scroll-padding" ""
    words := ["auto"] },
  { properties := ["flex-basis"], prefixes := ["-webkit-"], words := ["auto"] },
  { properties := ["flex"], prefixes := ["-webkit-", "-ms-"], words := ["none", "auto"] },
  { properties := ["flex-direction"], prefixes := ["-webkit-", "-ms-"]
    words := ["row", "row-reverse", "column", "column-reverse"] },
  { properties := ["flex-wrap"], prefixes := ["-webkit-", "-ms-"]
    words := ["nowrap", "wrap", "wrap-reverse"] },
  { properties := ["flex-flow"], prefixes := ["-webkit-", "-ms-"], shorter := [("nowrap", "row")]
    words := ["row", "row-reverse", "column", "column-reverse", "wrap", "wrap-reverse"] },
  { properties := ["align-content"], prefixes := ["-webkit-"]
    words := ["normal", "baseline", "space-between", "space-around", "space-evenly", "stretch",
      "center", "start", "end", "flex-start", "flex-end"] },
  { properties := ["justify-content"], prefixes := ["-webkit-"]
    words := ["normal", "space-between", "space-around", "space-evenly", "stretch", "center",
      "start", "end", "flex-start", "flex-end", "left", "right"] },
  { properties := ["place-content"]
    words := ["normal", "space-between", "space-around", "space-evenly", "stretch", "center",
      "start", "end", "flex-start", "flex-end"] },
  { properties := ["align-self"], prefixes := ["-webkit-"]
    words := ["auto", "normal", "stretch", "baseline", "center", "start", "end", "self-start",
      "self-end", "flex-start", "flex-end"] },
  { properties := ["align-items"], prefixes := ["-webkit-"]
    words := ["normal", "stretch", "baseline", "center", "start", "end", "self-start", "self-end",
      "flex-start", "flex-end"] },
  { properties := ["justify-self", "justify-items", "place-self", "place-items"]
    words := ["normal", "stretch", "baseline", "center", "start", "end", "self-start", "self-end",
      "flex-start", "flex-end"] },
  { properties := ["row-gap", "column-gap", "gap"], words := ["normal"] },
  { properties := ["-webkit-box-orient", "-moz-box-orient"]
    words := ["horizontal", "vertical", "inline-axis", "block-axis"] },
  { properties := ["-webkit-box-direction", "-moz-box-direction"]
    words := ["normal", "reverse"] },
  { properties := ["-webkit-box-align", "-moz-box-align"]
    words := ["start", "end", "center", "baseline", "stretch"] },
  { properties := ["-webkit-box-pack", "-moz-box-pack"]
    words := ["start", "end", "center", "justify"] },
  { properties := ["-webkit-box-lines", "-moz-box-lines"], words := ["single", "multiple"] },
  { properties := ["-ms-flex-pack"], words := ["start", "end", "center", "justify", "distribute"] },
  { properties := ["-ms-flex-align"], words := ["start", "end", "center", "baseline", "stretch"] },
  { properties := ["-ms-flex-item-align"]
    words := ["auto", "start", "end", "center", "baseline", "stretch"] },
  { properties := ["-ms-flex-line-pack"]
    words := ["start", "end", "center", "justify", "distribute", "stretch"] },
  { properties := ["grid-template-columns", "grid-template-rows", "grid-template-areas",
      "grid-template"]
    words := ["none"] },
  { properties := ["grid-auto-columns", "grid-auto-rows"]
    words := ["auto", "min-content", "max-content"] },
  { properties := ["grid-auto-flow"], words := ["row", "column", "dense"] },
  { properties := ["grid-row-start", "grid-row-end", "grid-column-start", "grid-column-end",
      "grid-row", "grid-column", "grid-area"]
    words := ["auto"], names := true },
  { properties := ["container-type"], words := ["normal", "inline-size", "size"] },
  { properties := ["container-name", "container", "view-transition-name"], words := ["none"]
    names := true }]

def fontGroups : List PropertyGroup := [
  { properties := ["font-weight"], words := ["bolder", "lighter"]
    shorter := [("normal", "400"), ("bold", "700")] },
  { properties := ["font-size"]
    words := ["xx-small", "x-small", "small", "medium", "large", "x-large", "xx-large",
      "xxx-large", "smaller", "larger"] },
  { properties := ["font-stretch"]
    shorter := [("normal", "100%"), ("ultra-condensed", "50%"), ("extra-condensed", "62.5%"),
      ("condensed", "75%"), ("semi-condensed", "87.5%"), ("semi-expanded", "112.5%"),
      ("expanded", "125%"), ("extra-expanded", "150%"), ("ultra-expanded", "200%")] },
  { properties := ["font-family"], names := true, lists := true
    words := ["serif", "sans-serif", "cursive", "fantasy", "monospace", "system-ui", "emoji",
      "math", "fangsong", "ui-serif", "ui-sans-serif", "ui-monospace", "ui-rounded"] ++
      generalWords },
  { properties := ["font-style"], words := ["normal", "italic", "oblique"] },
  { properties := ["font-variant-caps"]
    words := ["normal", "small-caps", "all-small-caps", "petite-caps", "all-petite-caps",
      "unicase", "titling-caps"] },
  { properties := ["line-height", "word-spacing", "letter-spacing"], words := ["normal"] },
  { properties := ["vertical-align"]
    words := ["baseline", "sub", "super", "top", "text-top", "middle", "bottom", "text-bottom"] },
  { properties := ["font-palette"], words := ["normal", "light", "dark"] }]

def textGroups : List PropertyGroup := [
  { properties := ["text-transform"]
    words := ["none", "uppercase", "lowercase", "capitalize", "full-width", "full-size-kana"] },
  { properties := ["white-space"]
    words := ["normal", "pre", "nowrap", "pre-wrap", "break-spaces", "pre-line"] },
  { properties := ["word-break"], words := ["normal", "keep-all", "break-all", "break-word"] },
  { properties := ["line-break"], words := ["auto", "loose", "normal", "strict", "anywhere"] },
  { properties := ["hyphens"], prefixes := ["-webkit-", "-moz-", "-ms-"]
    words := ["none", "manual", "auto"] },
  { properties := ["overflow-wrap", "word-wrap"], words := ["normal", "break-word", "anywhere"] },
  { properties := ["text-align"]
    words := ["start", "end", "left", "right", "center", "justify", "match-parent",
      "justify-all"] },
  { properties := ["text-align-last"], prefixes := ["-moz-"]
    words := ["auto", "start", "end", "left", "right", "center", "justify", "match-parent"] },
  { properties := ["text-justify"], words := ["auto", "none", "inter-word", "inter-character"] },
  { properties := ["text-decoration", "text-decoration-line"], prefixes := ["-webkit-", "-moz-"]
    words := ["none", "underline", "overline", "line-through", "blink"] },
  { properties := ["text-decoration-style"], prefixes := ["-webkit-", "-moz-"]
    words := ["solid", "double", "dotted", "dashed", "wavy"] },
  { properties := ["text-decoration-thickness"], words := ["auto", "from-font"] },
  { properties := ["text-decoration-skip-ink"], prefixes := ["-webkit-"]
    words := ["auto", "none", "all"] },
  { properties := ["text-emphasis-style"], prefixes := ["-webkit-"]
    words := ["none", "filled", "open", "dot", "circle", "double-circle", "triangle", "sesame"] },
  { properties := ["text-size-adjust"], prefixes := ["-webkit-", "-moz-", "-ms-"]
    words := ["auto", "none"] },
  { properties := ["direction"], words := ["ltr", "rtl"] },
  { properties := ["unicode-bidi"]
    words := ["normal", "embed", "isolate", "bidi-override", "isolate-override", "plaintext"] },
  { properties := ["box-decoration-break"], prefixes := ["-webkit-"]
    words := ["slice", "clone"] },
  { properties := ["list-style-type"], names := true
    words := ["none", "decimal", "decimal-leading-zero", "lower-roman", "upper-roman",
      "lower-greek", "lower-latin", "upper-latin", "lower-alpha", "upper-alpha", "armenian",
      "georgian", "hebrew", "hiragana", "katakana", "disc", "circle", "square",
      "disclosure-open", "disclosure-closed"] },
  { properties := ["list-style-position"], words := ["inside", "outside"] },
  { properties := ["marker-side"], words := ["match-self", "match-parent"] }]

def motionGroups : List PropertyGroup := [
  { properties := ["transition"], prefixes := ["-webkit-", "-moz-", "-ms-"]
    lists := true, words := ["none"] },
  { properties := ["transition-property"], prefixes := ["-webkit-", "-moz-", "-ms-"], lists := true
    words := ["none", "all"] },
  { properties := ["transition-timing-function"], prefixes := ["-webkit-", "-moz-", "-ms-"]
    lists := true
    words := ["linear", "ease", "ease-in", "ease-out", "ease-in-out"] },
  { properties := ["animation-timing-function"], prefixes := ["-webkit-", "-moz-", "-o-"]
    lists := true
    words := ["linear", "ease", "ease-in", "ease-out", "ease-in-out"] },
  { properties := ["animation", "animation-name"], prefixes := ["-webkit-", "-moz-", "-o-"]
    lists := true
    words := ["none"], names := true },
  { properties := ["animation-iteration-count"], prefixes := ["-webkit-", "-moz-", "-o-"]
    lists := true
    words := ["infinite"] },
  { properties := ["animation-direction"], prefixes := ["-webkit-", "-moz-", "-o-"], lists := true
    words := ["normal", "reverse", "alternate", "alternate-reverse"] },
  { properties := ["animation-play-state"], prefixes := ["-webkit-", "-moz-", "-o-"], lists := true
    words := ["running", "paused"] },
  { properties := ["animation-fill-mode"], prefixes := ["-webkit-", "-moz-", "-o-"], lists := true
    words := ["none", "forwards", "backwards", "both"] },
  { properties := ["animation-composition"]
    lists := true, words := ["replace", "add", "accumulate"] },
  { properties := ["animation-timeline"], lists := true, words := ["auto", "none"] },
  { properties := ["transform"], prefixes := ["-webkit-", "-moz-", "-ms-", "-o-"]
    words := ["none"] },
  { properties := ["transform-style"], prefixes := ["-webkit-", "-moz-"]
    words := ["flat", "preserve-3d"] },
  { properties := ["transform-box"]
    words := ["content-box", "border-box", "fill-box", "stroke-box", "view-box"] },
  { properties := ["backface-visibility"], prefixes := ["-webkit-", "-moz-"]
    words := ["visible", "hidden"] },
  { properties := ["perspective"], prefixes := ["-webkit-", "-moz-"], words := ["none"] },
  { properties := ["translate", "rotate", "scale"], words := ["none"] }]

def interfaceGroups : List PropertyGroup := [
  { properties := ["all"], words := ["initial", "inherit", "unset", "revert", "revert-layer"] },
  { properties := ["resize"]
    words := ["none", "both", "horizontal", "vertical", "block", "inline"] },
  { properties := ["cursor"]
    words := ["auto", "default", "none", "context-menu", "help", "pointer", "progress", "wait",
      "cell", "crosshair", "text", "vertical-text", "alias", "copy", "move", "no-drop",
      "not-allowed", "grab", "grabbing", "e-resize", "n-resize", "ne-resize", "nw-resize",
      "s-resize", "se-resize", "sw-resize", "w-resize", "ew-resize", "ns-resize", "nesw-resize",
      "nwse-resize", "col-resize", "row-resize", "all-scroll", "zoom-in", "zoom-out"] },
  { properties := ["caret-shape"], words := ["auto", "bar", "block", "underscore"] },
  { properties := ["user-select"], prefixes := ["-webkit-", "-moz-", "-ms-"]
    words := ["auto", "text", "none", "contain", "all"] },
  { properties := ["appearance"], prefixes := ["-webkit-", "-moz-", "-ms-"], names := true
    words := ["none", "auto", "textfield", "menulist-button", "button", "checkbox", "listbox",
      "menulist", "meter", "progress-bar", "push-button", "radio", "searchfield",
      "slider-horizontal", "square-button", "textarea"] },
  { properties := ["color-scheme"], words := ["normal", "light", "dark"] },
  { properties := ["print-color-adjust"], prefixes := ["-webkit-"], words := ["economy", "exact"] },
  { properties := ["fill-rule", "clip-rule"], words := ["nonzero", "evenodd"] },
  { properties := ["stroke-linecap"], words := ["butt", "round", "square"] },
  { properties := ["stroke-linejoin"], words := ["miter", "miter-clip", "round", "bevel", "arcs"] },
  { properties := ["stroke-dasharray"], words := ["none"] },
  { properties := ["color-interpolation", "color-interpolation-filters"]
    words := ["auto", "srgb", "linearrgb"] },
  { properties := ["color-rendering", "image-rendering"]
    words := ["auto", "optimizespeed", "optimizequality"] },
  { properties := ["shape-rendering"]
    words := ["auto", "optimizespeed", "crispedges", "geometricprecision"] },
  { properties := ["text-rendering"]
    words := ["auto", "optimizespeed", "optimizelegibility", "geometricprecision"] }]

/-- Properties that take numbers, lengths and lists, and no single words. -/
def measureGroups : List PropertyGroup := [
  { properties := ["opacity", "border-spacing", "border-start-start-radius",
      "border-start-end-radius", "border-end-start-radius", "border-end-end-radius", "font",
      "text-indent", "text-shadow", "caret", "composes", "fill-opacity", "stroke-opacity",
      "stroke-width", "stroke-miterlimit", "stroke-dashoffset", "grid",
      "-webkit-box-ordinal-group", "-moz-box-ordinal-group", "-webkit-box-flex", "-moz-box-flex",
      "-webkit-box-flex-group", "-ms-flex-order", "-ms-flex-positive", "-ms-flex-negative",
      "animation-range", "animation-range-start", "animation-range-end"] ++
      sided "scroll-margin" "" },
  { properties := ["box-shadow", "border-radius", "border-top-left-radius",
      "border-top-right-radius", "border-bottom-left-radius", "border-bottom-right-radius",
      "perspective-origin"]
    prefixes := ["-webkit-", "-moz-"] },
  { properties := ["flex-grow", "flex-shrink", "order", "text-emphasis", "text-emphasis-position"]
    prefixes := ["-webkit-"] },
  { properties := ["tab-size"], prefixes := ["-moz-", "-o-"] },
  { properties := ["transition-duration", "transition-delay"]
    prefixes := ["-webkit-", "-moz-", "-ms-"] },
  { properties := ["animation-duration", "animation-delay"]
    prefixes := ["-webkit-", "-moz-", "-o-"] },
  { properties := ["transform-origin"], prefixes := ["-webkit-", "-moz-", "-ms-", "-o-"] }]

/-- All that is known of properties. -/
def propertyGroups : List PropertyGroup :=
  imageGroups ++ colourGroups ++ backgroundGroups ++ layoutGroups ++ fontGroups ++ textGroups ++
    motionGroups ++ interfaceGroups ++ measureGroups

/-- The group of a property, by its name without capitals. -/
def group? (property : Text) : Option PropertyGroup := propertyGroups.find? (·.owns property)

end StyleAssets.Css
