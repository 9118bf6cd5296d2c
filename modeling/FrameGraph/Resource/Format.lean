/-!
# Texture formats

The storage formats of textures, named as in the metadata of a graph, and the part of
a framebuffer that each of them can serve as.
-/

namespace FrameGraph

inductive TextureFormat where
  | r8
  | rg8
  | rgba8
  | r16
  | rg16
  | rgba16
  | r16f
  | rg16f
  | rgba16f
  | r32f
  | rg32f
  | rgba32f
  | r8i
  | rg8i
  | rgba8i
  | r16i
  | rg16i
  | rgba16i
  | r32i
  | rg32i
  | rgba32i
  | r8ui
  | rg8ui
  | rgba8ui
  | r16ui
  | rg16ui
  | rgba16ui
  | r32ui
  | rg32ui
  | rgba32ui
  | rgb10A2
  | rgb10A2ui
  | r11fG11fB10f
  | srgb8Alpha8
  | depthComponent16
  | depthComponent24
  | depthComponent32f
  | depth24Stencil8
  | depth32fStencil8
  | stencilIndex8
  deriving DecidableEq, Repr

/-- The part of a framebuffer that a format can serve as. -/
inductive FormatClass where
  | color
  | depth
  | stencil
  | depthStencil
  deriving DecidableEq, Repr

namespace TextureFormat

def all : List TextureFormat :=
  [.r8, .rg8, .rgba8, .r16, .rg16, .rgba16, .r16f, .rg16f, .rgba16f, .r32f,
    .rg32f, .rgba32f, .r8i, .rg8i, .rgba8i, .r16i, .rg16i, .rgba16i, .r32i,
    .rg32i, .rgba32i, .r8ui, .rg8ui, .rgba8ui, .r16ui, .rg16ui, .rgba16ui,
    .r32ui, .rg32ui, .rgba32ui, .rgb10A2, .rgb10A2ui, .r11fG11fB10f,
    .srgb8Alpha8, .depthComponent16, .depthComponent24, .depthComponent32f,
    .depth24Stencil8, .depth32fStencil8, .stencilIndex8]

def name : TextureFormat → String
  | .r8 => "R8"
  | .rg8 => "RG8"
  | .rgba8 => "RGBA8"
  | .r16 => "R16"
  | .rg16 => "RG16"
  | .rgba16 => "RGBA16"
  | .r16f => "R16F"
  | .rg16f => "RG16F"
  | .rgba16f => "RGBA16F"
  | .r32f => "R32F"
  | .rg32f => "RG32F"
  | .rgba32f => "RGBA32F"
  | .r8i => "R8I"
  | .rg8i => "RG8I"
  | .rgba8i => "RGBA8I"
  | .r16i => "R16I"
  | .rg16i => "RG16I"
  | .rgba16i => "RGBA16I"
  | .r32i => "R32I"
  | .rg32i => "RG32I"
  | .rgba32i => "RGBA32I"
  | .r8ui => "R8UI"
  | .rg8ui => "RG8UI"
  | .rgba8ui => "RGBA8UI"
  | .r16ui => "R16UI"
  | .rg16ui => "RG16UI"
  | .rgba16ui => "RGBA16UI"
  | .r32ui => "R32UI"
  | .rg32ui => "RG32UI"
  | .rgba32ui => "RGBA32UI"
  | .rgb10A2 => "RGB10_A2"
  | .rgb10A2ui => "RGB10_A2UI"
  | .r11fG11fB10f => "R11F_G11F_B10F"
  | .srgb8Alpha8 => "SRGB8_ALPHA8"
  | .depthComponent16 => "DEPTH_COMPONENT16"
  | .depthComponent24 => "DEPTH_COMPONENT24"
  | .depthComponent32f => "DEPTH_COMPONENT32F"
  | .depth24Stencil8 => "DEPTH24_STENCIL8"
  | .depth32fStencil8 => "DEPTH32F_STENCIL8"
  | .stencilIndex8 => "STENCIL_INDEX8"

/-- The format with the given name; case matters. -/
def ofName? (s : String) : Option TextureFormat := all.find? fun f => f.name = s

/-- The part that a format serves as; all but six formats hold colors. -/
def formatClass : TextureFormat → FormatClass
  | .depthComponent16 | .depthComponent24 | .depthComponent32f => .depth
  | .stencilIndex8 => .stencil
  | .depth24Stencil8 | .depth32fStencil8 => .depthStencil
  | _ => .color

end TextureFormat

end FrameGraph
